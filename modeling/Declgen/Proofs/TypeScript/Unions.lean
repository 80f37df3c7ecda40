import Declgen.Proofs.Layout.Flush
import Declgen.Proofs.TypeScript.Comparison
import Declgen.Proofs.TypeScript.Regular

/-!
# Texts of unions

A union is flattened twice. When it is made, members that are unions are replaced by their own
members, one level deep, and nodes that occur again are dropped. When it is written, unions are
opened at every level and leaves that occur again are dropped. Together they write the leaves of the
members, each once. Only for members without any leaf they do not agree: a union without members is
`never` when it is made, but it is not looked for below the first level.

A type or null always has the leaf `null`, and it comes first. So such a type is written as `null`
and the other leaves, and adding null once more changes nothing.
-/

namespace Declgen.TypeScript.Expr

open Layout Passage

/-! ### What an expression is written with -/

/-- The expressions that an expression is written with: its parts, or its leaves if it is a
union. -/
def written : Expr → List Expr
  | .union members => members.flatMap leaves
  | e => e.parts

/-- Induction over the expressions that an expression is written with. -/
theorem written_induction {motive : Expr → Prop}
    (step : ∀ e, (∀ part ∈ e.written, motive part) → motive e) (e : Expr) : motive e := by
  have hleaves {e : Expr} (h : ∀ leaf ∈ e.leaves, motive leaf) : motive e := by
    cases e with
    | union members =>
      rw [leaves_union] at h
      exact step _ h
    | _ => exact h _ (List.mem_singleton_self _)
  apply hleaves
  induction e using parts_induction with
  | step e ih =>
    cases e with
    | union members =>
      rw [leaves_union, List.forall_mem_flatMap]
      exact ih
    | _ => exact List.forall_mem_singleton.mpr (step _ fun part hpart => hleaves (ih part hpart))

/-- The lines of one entry are single lines. -/
theorem single_entryLines {before between : String} {key type : Passage} (hkey : key.Flush)
    (htype : type.Flush) : ∀ l ∈ entryLines before key between type, '\n' ∉ l.body.toList :=
  (((((flush_ofString before).append hkey).append (flush_ofString between)).append htype).append
    (flush_ofString ";")).single_toLines

/-- The lines of a documentation are single lines. -/
theorem single_docLines (doc : Option String) : ∀ l ∈ docLines doc, '\n' ∉ l.body.toList := by
  cases doc with
  | none => exact List.forall_mem_nil _
  | some doc => exact List.forall_mem_map.mpr fun line hline => notMem_of_mem_commentLines hline

/-- The lines of fields are single lines if those of their types are. -/
theorem single_layoutFields {fields : List (Field Expr)} (h : ∀ f ∈ fields, f.type.layout.Flush) :
    ∀ l ∈ layoutFields fields, '\n' ∉ l.body.toList := by
  rw [layoutFields_eq_flatMap, List.forall_mem_flatMap]
  intro f hf
  rw [List.forall_mem_append]
  exact ⟨single_docLines f.doc, single_entryLines (flush_ofString "") (h f hf)⟩

/-- An expression starts and ends at the depth at which it stands. -/
theorem flush_layout (e : Expr) : e.layout.Flush := by
  induction e using written_induction with
  | step e ih =>
    cases e with
    | genericReference unit name arguments =>
      rw [layout, layoutList_eq_map]
      exact ((flush_ofString _).append (flush_join _ (List.forall_mem_map.mpr ih))).append
        (flush_ofString _)
    | array element =>
      have helement : element.layout.Flush := ih element (List.mem_singleton_self _)
      rw [layout]
      split
      · exact helement.append (flush_ofString _)
      · exact ((flush_ofString _).append helement).append (flush_ofString _)
    | union members =>
      rw [layout_union]
      exact flush_join _ (List.forall_mem_map.mpr fun leaf hleaf =>
        ih leaf (List.mem_eraseDups.mp hleaf))
    | object fields =>
      by_cases hne : fields = []
      · subst hne
        exact flush_ofString _
      · rw [layout_object hne]
        exact flush_braced (single_layoutFields fun f hf => ih f.type (List.mem_map_of_mem hf))
    | index key value =>
      exact flush_braced (single_entryLines (ih key (by simp [written, parts]))
        (ih value (by simp [written, parts])))
    | mapped key value optional =>
      exact flush_braced (single_entryLines (ih key (by simp [written, parts]))
        (ih value (by simp [written, parts])))
    | _ => exact flush_ofString _

/-! ### Unions -/

/-- The text of an expression consists of the texts of its leaves. -/
theorem toText_eq_leaves (e : Expr) (indent : Indent) :
    e.toText indent = " | ".intercalate (e.leaves.eraseDups.map (toText indent)) := by
  cases e with
  | union members =>
    have hflush : ∀ p ∈ (members.flatMap leaves).eraseDups.map layout, p.Flush :=
      List.forall_mem_map.mpr fun leaf _ => flush_layout leaf
    rw [leaves_union, toText, layout_union, toText_join _ _ hflush, List.map_map]
    rfl
  | _ =>
    rw [leaves, eraseDups_of_nodup (List.nodup_singleton _), List.map_singleton,
      String.intercalate_singleton]
    simp

/-- The alternatives of an expression have the same leaves as the expression. -/
theorem flatMap_leaves_alternatives (e : Expr) : e.alternatives.flatMap leaves = e.leaves := by
  cases e with
  | union members => exact (leaves_union members).symm
  | _ => exact List.flatMap_singleton leaves _

/-- A type that has alternatives has their leaves. -/
theorem leaves_ofAlternatives {parts : List Expr} (h : parts ≠ []) :
    (ofAlternatives parts).leaves = parts.flatMap leaves := by
  unfold ofAlternatives
  split
  · contradiction
  · exact (List.flatMap_singleton leaves _).symm
  · exact leaves_union _

/-- Making a union keeps the leaves of its members, if these have an alternative at all. -/
theorem eraseDups_leaves_unionOf {members : List Expr} (h : members.flatMap alternatives ≠ []) :
    (unionOf members).leaves.eraseDups = (members.flatMap leaves).eraseDups := by
  have hparts : (members.flatMap alternatives).eraseDups ≠ [] := by
    obtain ⟨part, hpart⟩ := List.exists_mem_of_ne_nil _ h
    exact List.ne_nil_of_mem (List.mem_eraseDups.mpr hpart)
  calc (unionOf members).leaves.eraseDups
      = ((members.flatMap alternatives).eraseDups.flatMap leaves).eraseDups := by
        rw [unionOf_eq, leaves_ofAlternatives hparts]
    _ = ((members.flatMap alternatives).flatMap leaves).eraseDups :=
        eraseDups_flatMap_eraseDups leaves _
    _ = (members.flatMap leaves).eraseDups := by
        rw [List.flatMap_assoc]
        exact congrArg _ (List.flatMap_congr fun member _ => flatMap_leaves_alternatives member)

/-- Members have no alternative only if all of them are unions without members. -/
theorem flatMap_alternatives_eq_nil {members : List Expr} :
    members.flatMap alternatives = [] ↔ ∀ member ∈ members, member = .union [] := by
  rw [List.flatMap_eq_nil_iff]
  refine forall₂_congr fun member _ => ?_
  cases member <;> simp [alternatives]

/-- The text of a union: the texts of the leaves of its members, each leaf once, in order of first
occurrence. Without a leaf it is `never` if all members are unions without members, and nothing if
unions without members are hidden further inside. -/
theorem toText_unionOf (members : List Expr) (indent : Indent) :
    (unionOf members).toText indent =
      if members.flatMap leaves ≠ [] then
        " | ".intercalate ((members.flatMap leaves).eraseDups.map (toText indent))
      else if ∀ member ∈ members, member = .union [] then "never"
      else "" := by
  simp only [← flatMap_alternatives_eq_nil]
  by_cases hnone : members.flatMap alternatives = []
  · have hleaves : members.flatMap leaves = [] := by
      rw [List.flatMap_congr fun member _ => (flatMap_leaves_alternatives member).symm,
        ← List.flatMap_assoc, hnone, List.flatMap_nil]
    rw [unionOf_eq, hnone, hleaves]
    rfl
  · rw [toText_eq_leaves, eraseDups_leaves_unionOf hnone, if_neg hnone]
    split
    · rfl
    · rename_i hleaves
      rw [not_not.mp hleaves]
      rfl

/-- A union without leaves, hidden below the first level, is not written as `never`. -/
theorem toText_unionOf_hidden :
    [Expr.union [.union []]].flatMap leaves = [] ∧
      (unionOf [.union [.union []]]).toText (.spaces 4) = "" := by
  decide +kernel

/-! ### Types or null -/

/-- A type or null has the leaves `null` and those of the type. -/
theorem eraseDups_leaves_nullable (e : Expr) :
    e.nullable.leaves.eraseDups =
      .keyword .null :: (e.leaves.filter (· ≠ .keyword .null)).eraseDups := by
  have hsome : [Expr.keyword .null, e].flatMap alternatives ≠ [] := List.cons_ne_nil _ _
  calc e.nullable.leaves.eraseDups
      = ([Expr.keyword .null, e].flatMap leaves).eraseDups := eraseDups_leaves_unionOf hsome
    _ = (.keyword .null :: e.leaves).eraseDups := by simp [leaves]
    _ = .keyword .null :: (e.leaves.filter (· ≠ .keyword .null)).eraseDups := by
        have hother (leaf : Expr) : (!leaf == .keyword .null) = decide (leaf ≠ .keyword .null) := by
          rw [Bool.eq_iff_iff]
          simp
        rw [List.eraseDups_cons, List.filter_congr fun leaf _ => hother leaf]

/-- A type or null is `null` alone or a union that lists `null` first. -/
theorem nullable_cases (e : Expr) :
    e.nullable = .keyword .null ∨ ∃ others, e.nullable = .union (.keyword .null :: others) := by
  rw [nullable_eq, List.eraseDups_cons]
  cases (e.alternatives.filter fun part => !part == .keyword .null).eraseDups with
  | nil => exact .inl rfl
  | cons part parts => exact .inr ⟨part :: parts, rfl⟩

/-- A type that may be null does not change if null is added once more. It is `null` alone or a
union that lists `null` first, and it is written as `null` and the other leaves of the type, each
once, in order of first occurrence. -/
theorem nullable_written_null_first (e : Expr) (indent : Indent) :
    e.nullable.nullable = e.nullable ∧
      (e.nullable = .keyword .null ∨ ∃ others, e.nullable = .union (.keyword .null :: others)) ∧
      e.nullable.toText indent = " | ".intercalate
        ("null" :: (e.leaves.filter (· ≠ .keyword .null)).eraseDups.map (toText indent)) := by
  have hnull : (Expr.keyword .null).toText indent = "null" := toText_ofString _ "null"
  refine ⟨nullable_nullable e, nullable_cases e, ?_⟩
  rw [toText_eq_leaves, eraseDups_leaves_nullable, List.map_cons, hnull]

/-- Repeated and nested members of a union that holds null already are written once. -/
example : (nullable (.union [.keyword .string, .union [.keyword .null, .keyword .string],
    .union []])).toText (.spaces 4) = "null | string" := by
  decide +kernel

end Declgen.TypeScript.Expr
