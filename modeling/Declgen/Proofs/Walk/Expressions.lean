import Declgen.Proofs.Walk.Discovery
import Declgen.Proofs.Walk.Looking

/-!
# The outcome of a conversion

Converting a type writes the expression of its tree and meets the units that the tree needs, one
after the other. What is left of a failure are the causes that a document may have.
-/

namespace Declgen.Walk

open Model TypeScript Declgen.Units

/-- Converting the type `id` has given the expression `e` and led from the units `p` to `p'`. -/
def Converts (ctx : Context) (id : TypeId) (p : Progress) (e : Expr) (p' : Progress) : Prop :=
  Meets ctx.graph ((ctx.graph.tree id).needs ctx.options.generics) p p' ∧
    (ctx.graph.tree id).expr? ctx.options.generics p'.units ctx.scope = some e

variable {ctx : Context} {id : Nat} {p p' : Progress}

/-- Converting one type after the other gives the expressions of all of them. -/
theorem converts_all {ids : List TypeId} {es : List Expr}
    (h : Calls (Converts ctx) ids p es p') :
    Meets ctx.graph (TypeTree.needsAll ctx.options.generics (ids.map ctx.graph.tree)) p p' ∧
      TypeTree.exprs? ctx.options.generics p'.units ctx.scope (ids.map ctx.graph.tree) =
        some es := by
  induction h with
  | nil => exact ⟨.nil _, rfl⟩
  | cons head tail ih =>
    obtain ⟨hmeets, hexpr⟩ := head
    obtain ⟨hmeets', hexprs⟩ := ih
    refine ⟨hmeets.append hmeets', ?_⟩
    simp [TypeTree.exprs?, TypeTree.expr?_extends hmeets'.extends hexpr, hexprs]

/-- A reference to a named type meets its unit. -/
theorem referenceTo_outcome {g : Graph} (hg : g.WellFormed) (hid : id < g.size)
    (hnamed : (g.tree id).isNamed = true) (p : Progress) :
    Outcome (fun r => Meets g [g.tree id] p r.2 ∧ reference? r.2.units (g.tree id) = some r.1)
      GenerateError.Possible ((referenceTo g id).run p) := by
  refine (unitFor_outcome hg hid hnamed p).run_bind fun unit p' h => ?_
  obtain ⟨hmeet, hknown⟩ := h
  refine ⟨hmeet.single, ?_⟩
  rw [reference?, hknown, Option.map_some]

/-- An instantiation that is preserved becomes its record, applied to its arguments. -/
theorem preserved_outcome (hg : ctx.graph.WellFormed) {definition : TypeId} {c : ComplexType}
    (hc : ctx.graph.model.get definition = .ok (.complex c)) {arguments : List TypeId}
    {part : TypeId → Discovery Expr}
    (hpart : ∀ i ∈ arguments, ∀ p, Outcome (fun r => Converts ctx i p r.1 r.2)
      GenerateError.Possible ((part i).run p)) (p : Progress) :
    Outcome (fun r =>
        Meets ctx.graph (.record definition c ::
          TypeTree.needsAll ctx.options.generics (arguments.map ctx.graph.tree)) p r.2 ∧
        (do
          let unit ← known r.2.units (recordIdentity c)
          let es ← TypeTree.exprs? ctx.options.generics r.2.units ctx.scope
            (arguments.map ctx.graph.tree)
          some (Expr.genericReference unit.1 unit.2 es)) = some r.1)
      GenerateError.Possible
      ((do
        let (unit, name) ← unitFor ctx.graph definition
        return Expr.genericReference unit name (← arguments.mapM part)).run p) := by
  have hget := Graph.get_model hc
  have hrecord : ctx.graph.tree definition = .record definition c := hg.tree_eq hget
  refine (unitFor_outcome hg (Graph.get_lt hget) (by rw [hrecord]; rfl) p).run_bind
    fun unit p₁ h => ?_
  obtain ⟨hmeet, hknown⟩ := h
  rw [hrecord] at hmeet hknown
  refine (Outcome.mapM_calls (Converts ctx) (fun _ => True) (fun i hi p _ =>
    (hpart i hi p).weaken fun _ h => ⟨h, trivial⟩) trivial).run_bind fun es p' h => ?_
  obtain ⟨hmeets, hexprs⟩ := converts_all h.1
  refine ⟨.cons hmeet hmeets, ?_⟩
  simp only [TypeTree.spelling] at hknown
  simp [known_extends hmeets.extends hknown, hexprs]

/-- A named type that a conversion has come to is referred to. -/
theorem Look.refers {g : Graph} {depth : Nat} {within : List TypeId} {i : Nat} {t : TypeTree}
    (h : Look g depth within i t) (hg : g.WellFormed) (hnamed : t.isNamed = true) (p : Progress) :
    Outcome (fun r => Meets g [t] p r.2 ∧ reference? r.2.units t = some r.1)
      GenerateError.Possible ((referenceTo g i).run p) := by
  obtain ⟨hi, rfl, -, -⟩ := h
  exact referenceTo_outcome hg hi hnamed p

/-- A look that is deep enough converts the whole tree of a type. -/
theorem Look.converts {g : Graph} {options : Options} {hook : Hook} {scope : List String}
    (hg : g.WellFormed) (hhook : ∀ d, hook d = none) {depth : Nat} {within : List TypeId} {i : Nat}
    {t : TypeTree} (h : Look g depth within i t) (p : Progress) :
    Outcome (fun r => Meets g (t.needs options.generics) p r.2 ∧
        t.expr? options.generics r.2.units scope = some r.1)
      GenerateError.Possible ((convertWithin ⟨g, options, hook, scope⟩ depth within i).run p) := by
  induction t generalizing depth within i p with
  | primitive kind =>
    rw [h.convert_primitive hg hhook]
    exact ⟨.nil p, rfl⟩
  | enum id e =>
    rw [h.convert_enum hg hhook]
    exact h.refers hg rfl p
  | record id c =>
    rw [h.convert_record hg hhook]
    by_cases hgeneric : c.isGeneric = true
    · simp only [if_pos hgeneric]
      trivial
    · simp only [TypeTree.expr?, if_neg hgeneric]
      exact h.refers hg rfl p
  | parameter name =>
    rw [h.convert_parameter hg hhook]
    by_cases hscope : scope.contains name = true
    · rw [hscope]
      exact ⟨.nil p, if_pos hscope⟩
    · simp only [hscope, Bool.not_false, if_true]
      trivial
  | nullable inner ih =>
    obtain ⟨_, part, hpart, heq⟩ := h.convert_nullable hg hhook
    rw [heq]
    refine (ih hpart p).run_bind fun e p' hr => ?_
    refine ⟨hr.1, ?_⟩
    simp [TypeTree.expr?, hr.2]
  | array element ih =>
    obtain ⟨_, part, hpart, heq⟩ := h.convert_array hg hhook
    rw [heq]
    refine (ih hpart p).run_bind fun e p' hr => ?_
    refine ⟨hr.1, ?_⟩
    simp [TypeTree.expr?, hr.2]
  | dictionary key value ihkey ihvalue =>
    obtain ⟨_, i, j, keyType, hget, hkey, hvalue, heq⟩ := h.convert_dictionary hg hhook
    have hshows := hkey.shows hg
    rw [heq]
    refine (ihvalue hvalue p).run_bind fun value' p₁ hr => ?_
    obtain ⟨hmeets, hexpr⟩ := hr
    have hconverts := ihkey hkey p₁
    simp only [TypeTree.needs, TypeTree.expr?]
    -- A key that is neither text nor number nor enumeration is an error that may occur.
    cases key with
    | primitive kind =>
      cases hget.symm.trans hshows
      simp only [List.append_nil]
      cases kind with
      | boolean => trivial
      | binary => trivial
      | _ =>
        refine ⟨hmeets, ?_⟩
        simp [hexpr]
    | enum id e =>
      cases hget.symm.trans hshows
      refine hconverts.run_bind fun key' p' hr => ?_
      refine ⟨hmeets.append hr.1, ?_⟩
      have hkey' : reference? p'.units (.enum id e) = some key' := hr.2
      simp [TypeTree.expr?_extends hr.1.extends hexpr, hkey']
    | record id c =>
      cases hget.symm.trans hshows
      trivial
    | parameter name =>
      cases hget.symm.trans hshows
      trivial
    | nullable inner =>
      obtain ⟨_, hshows, -⟩ := hshows
      cases hget.symm.trans hshows
      trivial
    | array element =>
      obtain ⟨_, hshows, -⟩ := hshows
      cases hget.symm.trans hshows
      trivial
    | dictionary key value =>
      obtain ⟨_, _, hshows, -⟩ := hshows
      cases hget.symm.trans hshows
      trivial
    | instantiation definition c ts =>
      obtain ⟨_, hshows, -⟩ := hshows
      cases hget.symm.trans hshows
      trivial
  | instantiation definition c ts ih =>
    obtain ⟨depth, arguments, hc, hlooks, rfl, heq⟩ := h.convert_instantiation hg hhook
    rw [heq]
    by_cases hkept : options.generics = .preserve ∨
        TypeTree.anyHasParameter (arguments.map g.tree) = true
    · rw [if_pos (by exact hkept)]
      simp only [TypeTree.needs, TypeTree.expr?, if_pos hkept]
      have hpart : ∀ argument ∈ arguments, ∀ p, Outcome
          (fun r => Converts ⟨g, options, hook, scope⟩ argument p r.1 r.2) GenerateError.Possible
          ((convertWithin ⟨g, options, hook, scope⟩ depth (i :: within) argument).run p) :=
        fun a ha p => ih _ (List.mem_map_of_mem ha) (hlooks a ha) p
      exact preserved_outcome hg hc hpart p
    · rw [if_neg (by exact hkept)]
      simp only [TypeTree.needs, TypeTree.expr?, if_neg hkept]
      exact h.refers hg rfl p

/-- Converting a type of a well-formed graph. -/
theorem convert_outcome (hg : ctx.graph.WellFormed) (hhook : ∀ d, ctx.hook d = none)
    (hid : id < ctx.graph.size) (p : Progress) :
    Outcome (fun r => Converts ctx id p r.1 r.2) GenerateError.Possible
      ((convert ctx id).run p) :=
  Look.converts hg hhook ⟨hid, rfl, Nat.lt_succ_of_lt hid, by simp⟩ p

end Declgen.Walk
