import Declgen.Proofs.TypeScript.Comparison
import Declgen.Proofs.TypeScript.Docs

/-!
# Regular types

A regular type has no verbatim text and no documentation, its unions are flat and list no type
twice, and no name in it is a reserved word. The parts of a regular type are regular, and they are
smaller than the type.
-/

namespace Declgen.TypeScript

open Text

namespace Expr

/-! ### Parts -/

/-- The expressions that an expression is made of directly. -/
def parts : Expr → List Expr
  | .genericReference _ _ arguments => arguments
  | .array element => [element]
  | .union members => members
  | .object fields => fields.map (·.type)
  | .index key value | .mapped key value _ => [key, value]
  | _ => []

/-- The nodes of an expression are the expression and the nodes of its parts. -/
theorem nodes_eq (e : Expr) : e.nodes = e :: e.parts.flatMap nodes := by
  cases e <;>
    simp [nodes, parts, nodesList_eq_flatMap, nodesFields_eq_flatMap, List.flatMap_map]

/-- A list has fewer elements than its size. -/
theorem length_lt_sizeOf {α : Type} [SizeOf α] (as : List α) : as.length < sizeOf as := by
  induction as with
  | nil => simp
  | cons a as ih =>
    rw [List.length_cons, List.cons.sizeOf_spec]
    omega

/-- No expression has the size zero. -/
theorem sizeOf_pos (e : Expr) : 0 < sizeOf e := Nat.pos_of_ne_zero (by cases e <;> simp)

/-- The parts of an expression are smaller than the expression. -/
theorem sizeOf_lt_of_mem_parts {part e : Expr} (h : part ∈ e.parts) : sizeOf part < sizeOf e := by
  cases e with
  | genericReference unit name arguments =>
    have : sizeOf part < sizeOf arguments := List.sizeOf_lt_of_mem h
    rw [genericReference.sizeOf_spec]
    omega
  | union members =>
    have : sizeOf part < sizeOf members := List.sizeOf_lt_of_mem h
    rw [union.sizeOf_spec]
    omega
  | object fields =>
    obtain ⟨f, hf, rfl⟩ := List.mem_map.mp h
    have := List.sizeOf_lt_of_mem hf
    obtain ⟨name, type, optional, doc⟩ := f
    rw [Field.mk.sizeOf_spec] at this
    rw [object.sizeOf_spec]
    dsimp only
    omega
  | array element =>
    rw [List.mem_singleton.mp h, array.sizeOf_spec]
    omega
  | index key value =>
    rw [index.sizeOf_spec]
    rcases List.mem_pair.mp h with rfl | rfl <;> omega
  | mapped key value optional =>
    rw [mapped.sizeOf_spec]
    rcases List.mem_pair.mp h with rfl | rfl <;> omega
  | _ => cases h

/-- Induction over the parts of an expression, whatever its form. -/
theorem parts_induction {motive : Expr → Prop}
    (step : ∀ e, (∀ part ∈ e.parts, motive part) → motive e) (e : Expr) : motive e :=
  step e fun part _ => parts_induction step part
termination_by sizeOf e
decreasing_by exact sizeOf_lt_of_mem_parts ‹_›

/-! ### Regular types -/

/-- What is asked of a node for a type to be told by its text. -/
def IsRegular : Expr → Prop
  | .verbatim _ => False
  | .reference _ name | .parameter name => isIdentifier name = true ∧ isReserved name = false
  | .genericReference _ name arguments =>
    (isIdentifier name = true ∧ isReserved name = false) ∧ arguments ≠ []
  | .union members =>
    2 ≤ members.length ∧ members.Nodup ∧ ∀ member ∈ members, member.isUnion = false
  | .object fields => ∀ f ∈ fields, f.doc = none
  | _ => True

instance : DecidablePred IsRegular
  | .verbatim _ => .isFalse id
  | .reference _ name | .parameter name =>
    inferInstanceAs (Decidable (isIdentifier name = true ∧ isReserved name = false))
  | .genericReference _ name arguments =>
    inferInstanceAs (Decidable
      ((isIdentifier name = true ∧ isReserved name = false) ∧ arguments ≠ []))
  | .union members =>
    inferInstanceAs (Decidable
      (2 ≤ members.length ∧ members.Nodup ∧ ∀ member ∈ members, member.isUnion = false))
  | .object fields => inferInstanceAs (Decidable (∀ f ∈ fields, f.doc = none))
  | .keyword _ | .literal _ | .array _ | .index .. | .mapped .. => .isTrue trivial

/-- Whether all nodes of an expression are regular. -/
def Regular (e : Expr) : Prop := ∀ node ∈ e.nodes, node.IsRegular

instance : DecidablePred Regular := fun e =>
  inferInstanceAs (Decidable (∀ node ∈ e.nodes, node.IsRegular))

namespace Regular

variable {e part : Expr}

/-- A regular expression is a regular node. -/
theorem self (h : e.Regular) : e.IsRegular := h e (by rw [nodes_eq]; exact List.mem_cons_self)

/-- The parts of a regular expression are regular. -/
theorem of_mem_parts (h : e.Regular) (hpart : part ∈ e.parts) : part.Regular := by
  rw [Regular, nodes_eq, List.forall_mem_cons, List.forall_mem_flatMap] at h
  exact h.2 part hpart

/-- A regular type has no documentation to erase. -/
theorem eraseDocs_eq (h : e.Regular) : e.eraseDocs = e := by
  induction e with
  | genericReference unit name arguments ih =>
    have hall : arguments.map eraseDocs = arguments.map id :=
      List.map_congr_left fun e he => ih e he (h.of_mem_parts he)
    rw [eraseDocs, eraseDocsList_eq_map, hall, List.map_id]
  | array element ih => rw [eraseDocs, ih (h.of_mem_parts (List.mem_singleton_self element))]
  | union members ih =>
    have hall : members.map eraseDocs = members.map id :=
      List.map_congr_left fun e he => ih e he (h.of_mem_parts he)
    rw [eraseDocs, eraseDocsList_eq_map, hall, List.map_id]
  | object fields ih =>
    have hdocs : ∀ f ∈ fields, f.doc = none := h.self
    have hall : fields.map (fun f => Field.mk f.name f.type.eraseDocs f.optional none) =
        fields.map id := List.map_congr_left fun f hf => by
      rw [ih f hf (h.of_mem_parts (List.mem_map_of_mem hf)), ← hdocs f hf, id]
    rw [eraseDocs, eraseDocsFields_eq_map, hall, List.map_id]
  | index key value ihkey ihvalue =>
    rw [eraseDocs, ihkey (h.of_mem_parts (by simp [parts])),
      ihvalue (h.of_mem_parts (by simp [parts]))]
  | mapped key value optional ihkey ihvalue =>
    rw [eraseDocs, ihkey (h.of_mem_parts (by simp [parts])),
      ihvalue (h.of_mem_parts (by simp [parts]))]
  | _ => rfl

/-- The members of a regular union are its leaves. -/
theorem leaves_eq {members : List Expr} (h : (Expr.union members).Regular) :
    members.flatMap leaves = members := by
  have hflat : ∀ member ∈ members, member.isUnion = false := h.self.2.2
  have hleaves : members.flatMap leaves = members.flatMap fun member => [member] :=
    List.flatMap_congr fun member hmember => by
      have hunion := hflat member hmember
      cases member with
      | union inner => cases hunion
      | _ => rfl
  rw [hleaves, List.flatMap_singleton']

/-- The nodes of a regular type are plain. -/
theorem isPlain (h : e.Regular) : ∀ node ∈ e.nodes, node.IsPlain := by
  induction e using parts_induction with
  | step e ih =>
    have hself : e.IsPlain := by
      cases e with
      | verbatim text => exact h.self
      | reference unit name => exact h.self.1
      | genericReference unit name arguments => exact h.self.1.1
      | parameter name => exact h.self.1
      | union members =>
        intro a ha b hb heq
        rw [h.leaves_eq] at ha hb
        rwa [(h.of_mem_parts ha).eraseDocs_eq, (h.of_mem_parts hb).eraseDocs_eq] at heq
      | _ => trivial
    rw [nodes_eq, List.forall_mem_cons, List.forall_mem_flatMap]
    exact ⟨hself, fun part hpart => ih part hpart (h.of_mem_parts hpart)⟩

/-- A regular expression is laid out in the same way without its documentation. -/
theorem documented (h : e.Regular) : e.Documented := Expr.documented h.isPlain

end Regular

end Expr

end Declgen.TypeScript
