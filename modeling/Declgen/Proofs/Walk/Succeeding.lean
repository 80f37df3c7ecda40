import Declgen.Proofs.Walk.Styles

/-!
# Conversions that succeed

A conversion fails because of a type that has no expression or because of a unit that cannot be met.
So where some registry knows an expression for a type, and the units that the type needs can be met
in every state of a kind, the type can be converted in every such state. The registry need not be
that of the state.
-/

namespace Declgen.Walk

open Model TypeScript Declgen.Units

/-- A computation succeeds in every state with `inv`, and keeps it. -/
def Succeeds (inv : Progress → Prop) {α : Type} (x : Discovery α) : Prop :=
  ∀ p, inv p → Outcome (fun r => inv r.2) (fun _ => False) (x.run p)

/-- Wherever the named type `t` stands in the graph, its unit can be met. -/
def Served (inv : Progress → Prop) (g : Graph) (t : TypeTree) : Prop :=
  ∀ id : Nat, id < g.size → g.tree id = t → Succeeds inv (unitFor g id)

variable {inv : Progress → Prop} {g : Graph} {options : Options} {hook : Hook}
  {scope : List String} {registry : Registry}

namespace Succeeds

/-- Returning a value succeeds. -/
theorem pure {α : Type} (a : α) : Succeeds inv (Pure.pure a : Discovery α) := fun _ hp => hp

/-- One computation after the other. -/
theorem bind {α β : Type} {x : Discovery α} {f : α → Discovery β} (hx : Succeeds inv x)
    (hf : ∀ a, Succeeds inv (f a)) : Succeeds inv (x >>= f) := fun p hp =>
  (hx p hp).run_bind fun a p' hp' => hf a p' hp'

/-- Going through a list succeeds if each element does. -/
theorem mapM {α β : Type} {f : α → Discovery β} {as : List α}
    (hf : ∀ a ∈ as, Succeeds inv (f a)) : Succeeds inv (as.mapM f) := by
  induction as with
  | nil => exact .pure []
  | cons a as ih =>
    rw [List.mapM_cons]
    refine .bind (hf a (by simp)) fun b => ?_
    exact .bind (ih fun c hc => hf c (by simp [hc])) fun bs => .pure (b :: bs)

end Succeeds

/-- A type whose unit can be met can be referred to. -/
theorem Served.referenceTo {t : TypeTree} (h : Served inv g t) {id : Nat} (hid : id < g.size)
    (htree : g.tree id = t) : Succeeds inv (referenceTo g id) :=
  .bind (h id hid htree) fun _ => .pure _

/-- A type is converted if it has an expression and all units that it needs can be met. -/
theorem Look.succeeds (hg : g.WellFormed) (hhook : ∀ d, hook d = none) {depth : Nat}
    {within : List TypeId} {i : Nat} {t : TypeTree} (h : Look g depth within i t)
    (hneeds : ∀ u ∈ t.needs options.generics, Served inv g u) {e : Expr}
    (he : t.expr? options.generics registry scope = some e) :
    Succeeds inv (convertWithin ⟨g, options, hook, scope⟩ depth within i) := by
  induction t generalizing depth within i e with
  | primitive kind =>
    rw [h.convert_primitive hg hhook]
    exact .pure _
  | enum id type =>
    rw [h.convert_enum hg hhook]
    exact (hneeds _ (List.mem_singleton_self _)).referenceTo h.lt h.tree
  | record id c =>
    rw [TypeTree.expr?] at he
    rw [h.convert_record hg hhook]
    by_cases hgeneric : c.isGeneric = true
    · rw [if_pos hgeneric] at he
      cases he
    · rw [if_neg hgeneric]
      exact (hneeds _ (List.mem_singleton_self _)).referenceTo h.lt h.tree
  | parameter name =>
    rw [TypeTree.expr?] at he
    rw [h.convert_parameter hg hhook]
    by_cases hscope : scope.contains name = true
    · rw [hscope]
      exact .pure _
    · rw [if_neg hscope] at he
      cases he
  | nullable inner ih =>
    obtain ⟨e', he', -⟩ := Option.map_eq_some_iff.mp he
    obtain ⟨depth', part, hpart, heq⟩ := h.convert_nullable hg hhook
    rw [heq]
    exact .bind (ih hpart hneeds he') fun _ => .pure _
  | array element ih =>
    obtain ⟨e', he', -⟩ := Option.map_eq_some_iff.mp he
    obtain ⟨depth', part, hpart, heq⟩ := h.convert_array hg hhook
    rw [heq]
    exact .bind (ih hpart hneeds he') fun _ => .pure _
  | dictionary key value ihkey ihvalue =>
    simp only [TypeTree.expr?, Option.bind_eq_bind, Option.bind_eq_some_iff] at he
    obtain ⟨value', hvalue', he⟩ := he
    obtain ⟨depth', i, j, keyType, hget, hkey, hvalue, heq⟩ := h.convert_dictionary hg hhook
    have hshows := hkey.shows hg
    rw [heq]
    refine .bind (ihvalue hvalue (fun u hu => hneeds u (List.mem_append_left _ hu)) hvalue')
      fun value'' => ?_
    -- Only text, numbers and enumerations are keys.
    cases key with
    | primitive kind =>
      cases hget.symm.trans hshows
      cases kind with
      | boolean => cases he
      | binary => cases he
      | _ => exact .pure _
    | enum id type =>
      cases hget.symm.trans hshows
      obtain ⟨key', hkey', -⟩ := Option.map_eq_some_iff.mp he
      refine .bind (ihkey hkey (fun u hu => hneeds u ?_) hkey') fun _ => .pure _
      exact List.mem_append_right _ hu
    | _ => cases he
  | instantiation definition c ts ih =>
    obtain ⟨depth', arguments, hc, hlooks, rfl, heq⟩ := h.convert_instantiation hg hhook
    rw [heq]
    rw [TypeTree.expr?] at he
    rw [TypeTree.needs] at hneeds
    by_cases hpreserved :
        options.generics = .preserve ∨ TypeTree.anyHasParameter (arguments.map g.tree) = true
    · rw [if_pos hpreserved] at he
      rw [if_pos hpreserved, TypeTree.needsAll_eq_flatMap] at hneeds
      simp only [TypeTree.exprs?_eq_mapM, Option.bind_eq_bind, Option.bind_eq_some_iff] at he
      obtain ⟨unit, -, es, hes, -⟩ := he
      have hget := Graph.get_model hc
      have hrecord := hneeds _ List.mem_cons_self _ (Graph.get_lt hget) (hg.tree_eq hget)
      rw [if_pos (by exact hpreserved)]
      refine .bind hrecord fun _ => .bind (.mapM fun i hi => ?_) fun _ => .pure _
      have hmem := List.mem_map_of_mem (f := g.tree) hi
      obtain ⟨e', -, he'⟩ := exists_mem_of_mapM hes hmem
      exact ih _ hmem (hlooks i hi)
        (fun u hu => hneeds u (List.mem_cons_of_mem _ (List.mem_flatMap.mpr ⟨_, hmem, hu⟩))) he'
    · rw [if_neg hpreserved] at hneeds
      rw [if_neg (by exact hpreserved)]
      exact (hneeds _ (List.mem_singleton_self _)).referenceTo h.lt h.tree

/-- So is a type that is not looked at within others. -/
theorem convert_succeeds (hg : g.WellFormed) (hhook : ∀ d, hook d = none) {id : Nat}
    (hid : id < g.size) (hneeds : ∀ u ∈ (g.tree id).needs options.generics, Served inv g u)
    {e : Expr} (he : (g.tree id).expr? options.generics registry scope = some e) :
    Succeeds inv (convert ⟨g, options, hook, scope⟩ id) :=
  Look.succeeds hg hhook ⟨hid, rfl, Nat.lt_succ_of_lt hid, by simp⟩ hneeds he

/-- Members are converted if each of them is and their fields have different names, also from those
that are taken. -/
theorem convertMembers_succeeds (hg : g.WellFormed) (hhook : ∀ d, hook d = none) {unit : String}
    {taken : List (String × String)} {members : List Member} (hholds : g.HoldsMembers members)
    (hneeds : ∀ m ∈ members.map g.member, ∀ u ∈ m.type.needs options.generics, Served inv g u)
    (hexpr : ∀ m ∈ members.map g.member, ∃ e,
      m.type.expr? options.generics registry scope = some e)
    (hnames : (members.map fun m => memberField options.fields m.name).Nodup)
    (htaken : ∀ m ∈ members, taken.lookup (memberField options.fields m.name) = none) :
    Succeeds inv (convertMembers ⟨g, options, hook, scope⟩ unit taken members) := by
  induction members generalizing taken with
  | nil => exact .pure []
  | cons m members ih =>
    rw [List.map_cons, List.forall_mem_cons] at hneeds hexpr
    simp only [Graph.HoldsMembers, List.map_cons, List.forall_mem_cons] at hholds
    rw [List.map_cons, List.nodup_cons] at hnames
    rw [List.forall_mem_cons] at htaken
    obtain ⟨e, he⟩ := hexpr.1
    have hrest : Succeeds inv (convertMembers ⟨g, options, hook, scope⟩ unit
        ((memberField options.fields m.name, m.name) :: taken) members) := by
      refine ih hholds.2 hneeds.2 hexpr.2 hnames.2 fun other hother => ?_
      have hne : memberField options.fields other.name ≠ memberField options.fields m.name :=
        fun heq => hnames.1 (heq ▸ List.mem_map_of_mem hother)
      rw [List.lookup_cons, beq_eq_false_iff_ne.mpr hne]
      exact htaken.2 other hother
    rw [convertMembers]
    simp only [convertMember, bind_assoc, pure_bind, htaken.1]
    refine .bind (convert_succeeds hg hhook hholds.1 hneeds.1 he) fun type => ?_
    exact .bind hrest fun _ => .pure _

/-! ### Types whose units are known -/

end Declgen.Walk
