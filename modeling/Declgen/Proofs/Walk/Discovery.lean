import Declgen.Proofs.Types.Replacement
import Declgen.Proofs.Units.Registry
import Declgen.Walk.Conversion

/-!
# What a conversion writes and which units it meets

The type expression of a type is a function of its tree and of the registry, and it stays the same
when the registry grows. A conversion gives this expression, and on the way it meets the units
that the tree names, in their order. It never fails because of the graph.
-/

namespace Declgen.Walk

open Model TypeScript Declgen.Units

/-! ### Known units -/

/-- The number and the name of the unit with a key. -/
def known (units : Registry) (key : String) : Option (UnitId × String) :=
  (units.lookup key).map fun unit => (unit, unitName units unit)

/-- The name of a unit is the one in its entry. -/
theorem unitName_of_entry {units : Registry} {unit : UnitId} {entry : String × Header}
    (h : units.entries[unit]? = some entry) : unitName units unit = entry.2.name := by
  rw [unitName, Registry.header?_eq, h]
  rfl

/-- A unit keeps its name when more units are reserved. -/
theorem unitName_extends {units units' : Registry} (h : units.Extends units') {unit : UnitId}
    (hlt : unit < units.size) : unitName units' unit = unitName units unit := by
  rw [← Registry.length_entries] at hlt
  have hentry := List.getElem?_eq_getElem hlt
  rw [unitName_of_entry hentry, unitName_of_entry (h.getElem? hentry)]

/-- A unit that is known stays known in a larger registry. -/
theorem known_extends {units units' : Registry} (h : units.Extends units') {key : String}
    {unit : UnitId × String} (hknown : known units key = some unit) :
    known units' key = some unit := by
  obtain ⟨u, hlookup, rfl⟩ := Option.map_eq_some_iff.mp hknown
  obtain ⟨header, hentry⟩ := Registry.exists_entry hlookup
  rw [known, h.lookup hlookup, Option.map_some, unitName_of_entry hentry,
    unitName_of_entry (h.getElem? hentry)]

/-- A reference to the unit of a type. -/
def reference? (units : Registry) (t : TypeTree) : Option Expr :=
  (known units t.spelling).map fun unit => .reference unit.1 unit.2

/-- A reference stays the same in a larger registry. -/
theorem reference?_extends {units units' : Registry} (h : units.Extends units') {t : TypeTree}
    {e : Expr} (he : reference? units t = some e) : reference? units' t = some e := by
  obtain ⟨unit, hknown, rfl⟩ := Option.map_eq_some_iff.mp he
  rw [reference?, known_extends h hknown, Option.map_some]

/-! ### Type expressions of trees -/

namespace TypeTree

mutual

/-- The type expression of a type, when all units that it needs are known. Instantiations are
preserved where the style says so or a parameter occurs in them. -/
def expr? (style : GenericStyle) (units : Registry) (scope : List String) : TypeTree → Option Expr
  | .primitive kind => some (.keyword (primitiveKeyword kind))
  | .enum id e => reference? units (.enum id e)
  | .record id c => if c.isGeneric then none else reference? units (.record id c)
  | .parameter name => if scope.contains name then some (.parameter name) else none
  | .nullable inner => (expr? style units scope inner).map Expr.nullable
  | .array element => (expr? style units scope element).map Expr.array
  | .dictionary key value => do
    let value' ← expr? style units scope value
    match key with
    | .primitive .string | .primitive .date => some (.index (.keyword .string) value')
    | .primitive .integer | .primitive .float => some (.index (.keyword .number) value')
    | .enum id e => (reference? units (.enum id e)).map fun key' => .mapped key' value' true
    | _ => none
  | .instantiation definition c arguments =>
    if style = .preserve ∨ anyHasParameter arguments = true then do
      let unit ← known units (recordIdentity c)
      let arguments' ← exprs? style units scope arguments
      some (.genericReference unit.1 unit.2 arguments')
    else reference? units (.instantiation definition c arguments)

/-- The type expressions of several types. -/
def exprs? (style : GenericStyle) (units : Registry) (scope : List String) :
    List TypeTree → Option (List Expr)
  | [] => some []
  | t :: ts => do
    let e ← expr? style units scope t
    let es ← exprs? style units scope ts
    some (e :: es)

end

/-- Several types are written one by one. -/
theorem exprs?_eq_mapM (style : GenericStyle) (units : Registry) (scope : List String)
    (ts : List TypeTree) : exprs? style units scope ts = ts.mapM (expr? style units scope) := by
  induction ts with
  | nil => rfl
  | cons t ts ih => rw [exprs?, ih, List.mapM_cons]; rfl

mutual

/-- The named types whose units the expression of a type needs, in the order of their use. -/
def needs (style : GenericStyle) : TypeTree → List TypeTree
  | .primitive _ | .parameter _ => []
  | .enum id e => [.enum id e]
  | .record id c => [.record id c]
  | .nullable inner => needs style inner
  | .array element => needs style element
  | .dictionary key value =>
    needs style value ++
      match key with
      | .enum id e => [.enum id e]
      | _ => []
  | .instantiation definition c arguments =>
    if style = .preserve ∨ anyHasParameter arguments = true then
      .record definition c :: needsAll style arguments
    else [.instantiation definition c arguments]

/-- The named types that several types need. -/
def needsAll (style : GenericStyle) : List TypeTree → List TypeTree
  | [] => []
  | t :: ts => needs style t ++ needsAll style ts

end

/-- What several types need they need one by one. -/
theorem needsAll_eq_flatMap (style : GenericStyle) (ts : List TypeTree) :
    needsAll style ts = ts.flatMap (needs style) := by
  induction ts with
  | nil => rfl
  | cons t ts ih => rw [needsAll, ih, List.flatMap_cons]

/-- The expression of a type does not change when units are added. -/
theorem expr?_extends {units units' : Registry} (h : units.Extends units') {style : GenericStyle}
    {scope : List String} {t : TypeTree} {e : Expr} (he : t.expr? style units scope = some e) :
    t.expr? style units' scope = some e := by
  induction t generalizing e with
  | primitive kind => exact he
  | parameter name => exact he
  | enum id type => exact reference?_extends h he
  | record id c =>
    simp only [expr?] at he ⊢
    by_cases hgeneric : c.isGeneric = true
    · rw [if_pos hgeneric] at he
      cases he
    · rw [if_neg hgeneric] at he ⊢
      exact reference?_extends h he
  | nullable inner ih =>
    obtain ⟨e', he', rfl⟩ := Option.map_eq_some_iff.mp he
    rw [expr?, ih he', Option.map_some]
  | array element ih =>
    obtain ⟨e', he', rfl⟩ := Option.map_eq_some_iff.mp he
    rw [expr?, ih he', Option.map_some]
  | dictionary key value _ ih =>
    simp only [expr?, Option.bind_eq_bind, Option.bind_eq_some_iff] at he ⊢
    obtain ⟨value', hvalue, he⟩ := he
    refine ⟨value', ih hvalue, ?_⟩
    split at he
    case h_5 =>
      obtain ⟨key', hkey, rfl⟩ := Option.map_eq_some_iff.mp he
      simp [reference?_extends h hkey]
    all_goals simp_all
  | instantiation definition c arguments ih =>
    simp only [expr?] at he ⊢
    by_cases hpreserved : style = .preserve ∨ anyHasParameter arguments = true
    · rw [if_pos hpreserved] at he ⊢
      simp only [exprs?_eq_mapM, Option.bind_eq_bind, Option.bind_eq_some_iff] at he ⊢
      obtain ⟨unit, hunit, es, hes, he⟩ := he
      exact ⟨unit, known_extends h hunit, es, mapM_mono (fun t ht e => ih t ht) hes, he⟩
    · rw [if_neg hpreserved] at he ⊢
      exact reference?_extends h he

end TypeTree

/-! ### Meeting units -/

/-- What it takes to meet a named type: either its unit is known, or it is reserved and queued. -/
inductive Meet (g : Graph) (t : TypeTree) : Progress → Progress → Prop
  /-- The unit is known. -/
  | again {p : Progress} {unit : UnitId} (hkey : p.units.lookup t.spelling = some unit) :
    Meet g t p p
  /-- The unit is new, and so is its name. -/
  | first {p : Progress} {id : Nat} {header : Header} (hid : id < g.size) (htree : g.tree id = t)
      (hkey : p.units.lookup t.spelling = none) (hheader : t.header? = some header)
      (hname : ∀ entry ∈ p.units.entries, entry.2.name ≠ header.name) :
      Meet g t p ⟨p.units.append t.spelling header, p.queue ++ [⟨p.units.size, id⟩]⟩

/-- Meeting several named types one after the other. -/
inductive Meets (g : Graph) : List TypeTree → Progress → Progress → Prop
  /-- Nothing is met. -/
  | nil (p : Progress) : Meets g [] p p
  /-- The first type, and those after it. -/
  | cons {t : TypeTree} {ts : List TypeTree} {p p' p'' : Progress} (head : Meet g t p p')
      (tail : Meets g ts p' p'') : Meets g (t :: ts) p p''

variable {g : Graph} {p p' p'' : Progress} {t : TypeTree} {ts ts' : List TypeTree}

/-- Meeting a type loses no units. -/
theorem Meet.extends (h : Meet g t p p') : p.units.Extends p'.units := by
  cases h with
  | again => exact .refl _
  | first => exact Registry.extends_append

/-- A type that has been met has a unit. -/
theorem Meet.known (h : Meet g t p p') : ∃ unit, p'.units.lookup t.spelling = some unit := by
  cases h with
  | again hkey => exact ⟨_, hkey⟩
  | first _ _ hkey => exact ⟨_, Registry.lookup_append hkey⟩

/-- Meeting several types loses no units. -/
theorem Meets.extends (h : Meets g ts p p') : p.units.Extends p'.units := by
  induction h with
  | nil => exact .refl _
  | cons head _ ih => exact head.extends.trans ih

/-- Types can be met one list after the other. -/
theorem Meets.append (h : Meets g ts p p') (h' : Meets g ts' p' p'') :
    Meets g (ts ++ ts') p p'' := by
  induction h with
  | nil => exact h'
  | cons head _ ih => exact .cons head (ih h')

/-- Meeting one type is meeting a list of one. -/
theorem Meet.single (h : Meet g t p p') : Meets g [t] p p' := .cons h (.nil _)

/-- What waits already has no influence on what is met. -/
theorem Meet.behind (pending : Pending) (h : Meet g t p p') :
    Meet g t ⟨p.units, pending :: p.queue⟩ ⟨p'.units, pending :: p'.queue⟩ := by
  cases h with
  | again hkey => exact .again hkey
  | first hid htree hkey hheader hname => exact .first hid htree hkey hheader hname

/-- Whoever waits first does not matter to those that are met behind. -/
theorem Meets.behind (pending : Pending) (h : Meets g ts p p') :
    Meets g ts ⟨p.units, pending :: p.queue⟩ ⟨p'.units, pending :: p'.queue⟩ := by
  induction h with
  | nil => exact .nil _
  | cons head _ ih => exact .cons (head.behind pending) ih

/-- Whatever has been met is known afterwards. -/
theorem Meets.known (h : Meets g ts p p') (ht : t ∈ ts) :
    ∃ unit, p'.units.lookup t.spelling = some unit := by
  induction h with
  | nil => cases ht
  | cons head tail ih =>
    rcases List.mem_cons.mp ht with rfl | ht
    · obtain ⟨unit, hunit⟩ := head.known
      exact ⟨unit, tail.extends.lookup hunit⟩
    · exact ih ht

/-- In a well-formed graph the identity of a type is told by its tree. -/
theorem identity_run (hg : g.WellFormed) {id : Nat} (hid : id < g.size) (p : Progress) :
    (liftM (identity g id) : Discovery String).run p = .ok ((g.tree id).spelling, p) := by
  rw [identity_eq hg hid]
  rfl

/-- Reading the progress changes nothing. -/
theorem get_run (p : Progress) : (get : Discovery Progress).run p = .ok (p, p) := rfl

/-- Asking for the unit of a named type meets it, and fails only because of its name. -/
theorem unitFor_outcome (hg : g.WellFormed) {id : Nat} (hid : id < g.size)
    (hnamed : (g.tree id).isNamed = true) (p : Progress) :
    Outcome (fun r => Meet g (g.tree id) p r.2 ∧
        Walk.known r.2.units (g.tree id).spelling = some r.1)
      GenerateError.Possible ((unitFor g id).run p) := by
  rw [unitFor, run_bind_eq (identity_run hg hid p), run_bind_eq (get_run p)]
  cases hkey : p.units.lookup (g.tree id).spelling with
  | some unit => exact ⟨.again hkey, by simp [Walk.known, hkey]⟩
  | none =>
    refine (header_outcome hg hid hnamed).lift_bind fun header hheader => ?_
    refine (Registry.reserve_outcome hkey).lift_bind fun r hr => ?_
    obtain ⟨rfl, hname⟩ := hr
    refine ⟨.first hid rfl hkey hheader hname, ?_⟩
    change Walk.known (p.units.append _ _) _ = _
    rw [Walk.known, Registry.lookup_append hkey, Option.map_some, unitName,
      Registry.header?_append]
    rfl

end Declgen.Walk
