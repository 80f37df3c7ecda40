import Declgen.Proofs.TypeScript.Nodes
import Declgen.TypeScript.Render

/-!
# How expressions are laid out

The leaves of a union are its members that are no unions, at any depth of unions. A union is laid
out as its leaves, and lists of arguments, leaves and fields are laid out one after the other.
-/

namespace Declgen.TypeScript.Expr

open Layout

mutual

/-- The expressions that are reached from an expression through unions only. -/
def leaves : Expr → List Expr
  | .union members => leavesList members
  | e => [e]

/-- The leaves of several expressions. -/
def leavesList : List Expr → List Expr
  | [] => []
  | e :: es => leaves e ++ leavesList es

end

/-- The leaves of a list are those of its expressions. -/
theorem leavesList_eq_flatMap (es : List Expr) : leavesList es = es.flatMap leaves := by
  induction es with
  | nil => rfl
  | cons e es ih => rw [leavesList, ih, List.flatMap_cons]

/-- The leaves of a union are those of its members. -/
theorem leaves_union (members : List Expr) :
    (Expr.union members).leaves = members.flatMap leaves := by
  rw [leaves, leavesList_eq_flatMap]

/-- A list is laid out expression by expression. -/
theorem layoutList_eq_map (es : List Expr) : layoutList es = es.map layout := by
  induction es with
  | nil => rfl
  | cons e es ih => rw [layoutList, ih, List.map_cons]

/-- An object type with fields is laid out between braces. -/
theorem layout_object {fields : List (Field Expr)} (h : fields ≠ []) :
    (Expr.object fields).layout = Passage.braced (layoutFields fields) := by
  obtain ⟨f, fields, rfl⟩ := List.exists_cons_of_ne_nil h
  rfl

/-- Fields are laid out one after the other, each below its documentation. -/
theorem layoutFields_eq_flatMap (fields : List (Field Expr)) :
    layoutFields fields = fields.flatMap fun f => docLines f.doc ++
      entryLines (propertyKey f.name ++ optionalMark f.optional) (Passage.ofString "") ": "
        f.type.layout := by
  induction fields with
  | nil => rfl
  | cons f fields ih => rw [layoutFields, ih, List.flatMap_cons]

/-- A list that has a pair for each leaf, built along the members of unions. -/
theorem pairs_eq_map {β : Type} {pairs : List Expr → List (Expr × β)} {f : Expr → β}
    (nil : pairs [] = [])
    (union : ∀ members es, pairs (.union members :: es) = pairs members ++ pairs es)
    (leaf : ∀ e es, (∀ members, e ≠ .union members) → pairs (e :: es) = (e, f e) :: pairs es)
    (es : List Expr) : pairs es = (es.flatMap leaves).map fun e => (e, f e) := by
  have hall {es : List Expr} (h : ∀ e ∈ es, ∀ rest, pairs (e :: rest) =
      (e.leaves.map fun e => (e, f e)) ++ pairs rest) :
      pairs es = (es.flatMap leaves).map fun e => (e, f e) := by
    induction es with
    | nil => exact nil
    | cons e es ih =>
      rw [List.forall_mem_cons] at h
      rw [h.1, ih h.2, List.flatMap_cons, List.map_append]
  have hcons (e : Expr) : ∀ rest, pairs (e :: rest) =
      (e.leaves.map fun e => (e, f e)) ++ pairs rest := by
    induction e with
    | union members ih =>
      intro rest
      rw [union, hall ih, leaves_union]
    | _ => exact fun rest => leaf _ rest (by simp)
  exact hall fun e _ => hcons e

/-- An expression in a pair is enough to tell the pair. -/
theorem eraseDups_pairs {β : Type} [BEq β] [LawfulBEq β] (f : Expr → β) (es : List Expr) :
    (es.map fun e => (e, f e)).eraseDups = es.eraseDups.map fun e => (e, f e) :=
  eraseDups_map fun _ _ _ _ h => (Prod.mk.inj h).1

/-- A union is laid out as its leaves, each once. -/
theorem layout_union (members : List Expr) :
    (Expr.union members).layout =
      Passage.join " | " ((members.flatMap leaves).eraseDups.map layout) := by
  have hpairs : layoutLeaves members =
      (members.flatMap leaves).map fun e => (e, e.layout) := by
    refine pairs_eq_map rfl (fun _ _ => rfl) (fun e es he => ?_) members
    rw [layoutLeaves]
    exact he
  rw [layout, hpairs, eraseDups_pairs, List.map_map]
  rfl

end Declgen.TypeScript.Expr
