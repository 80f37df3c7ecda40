import Declgen.Proofs.TypeScript.Nodes

/-!
# Comparing type expressions

Type expressions of two generations are compared after the references of one have been rewritten
as references of the other and after unions have been flattened: a union lists no unions and no
type twice. Rewriting may bring unions into unions, so it matters that a type or null has the same
normal form whether its parts are rewritten before or after the union is made.
-/

namespace Declgen.TypeScript.Expr

/-- What is put in for the leaves of an expression. -/
structure Rewriting where
  /-- For a type parameter. -/
  parameter : String → Expr
  /-- For a plain reference. -/
  reference : UnitId → String → Expr
  /-- For a reference with arguments, in which leaves have been replaced already. -/
  genericReference : UnitId → String → List Expr → Expr

mutual

/-- The expression in which leaves are replaced. -/
def rewrite (r : Rewriting) : Expr → Expr
  | .keyword word => .keyword word
  | .literal value => .literal value
  | .verbatim text => .verbatim text
  | .reference unit name => r.reference unit name
  | .genericReference unit name arguments => r.genericReference unit name (rewriteList r arguments)
  | .parameter name => r.parameter name
  | .array element => .array (rewrite r element)
  | .union members => .union (rewriteList r members)
  | .object fields => .object (rewriteFields r fields)
  | .index key value => .index (rewrite r key) (rewrite r value)
  | .mapped key value optional => .mapped (rewrite r key) (rewrite r value) optional

/-- The expressions of a list in which leaves are replaced. -/
def rewriteList (r : Rewriting) : List Expr → List Expr
  | [] => []
  | e :: es => rewrite r e :: rewriteList r es

/-- Fields in whose types leaves are replaced. -/
def rewriteFields (r : Rewriting) : List (Field Expr) → List (Field Expr)
  | [] => []
  | ⟨name, type, optional, doc⟩ :: fields =>
    ⟨name, rewrite r type, optional, doc⟩ :: rewriteFields r fields

end

/-- Puts expressions in for type parameters. -/
def subst (bindings : List (String × Expr)) (e : Expr) : Expr :=
  e.rewrite ⟨fun name => (bindings.lookup name).getD (.parameter name), .reference,
    .genericReference⟩

/-- A reference to a declaration, applied to arguments. -/
def applied (arguments : List Expr) : Expr → Expr
  | .reference unit name => .genericReference unit name arguments
  | e => e

/-- Reads the units of one generation as expressions of another one. -/
def readAs (reading : UnitId → Expr) (e : Expr) : Expr :=
  e.rewrite ⟨.parameter, fun unit _ => reading unit,
    fun unit _ arguments => (reading unit).applied arguments⟩

/-- The union of some types without repetitions. A single type stands for itself. -/
def joined : List Expr → Expr
  | [e] => e
  | es => .union es

mutual

/-- The expression in which all unions are flattened and list no type twice. -/
def normal : Expr → Expr
  | .genericReference unit name arguments => .genericReference unit name (normalList arguments)
  | .array element => .array (normal element)
  | .union members => joined ((normalList members).flatMap alternatives).eraseDups
  | .object fields => .object (normalFields fields)
  | .index key value => .index (normal key) (normal value)
  | .mapped key value optional => .mapped (normal key) (normal value) optional
  | e => e

/-- The expressions of a list with flattened unions. -/
def normalList : List Expr → List Expr
  | [] => []
  | e :: es => normal e :: normalList es

/-- Fields whose types have flattened unions. -/
def normalFields : List (Field Expr) → List (Field Expr)
  | [] => []
  | ⟨name, type, optional, doc⟩ :: fields =>
    ⟨name, normal type, optional, doc⟩ :: normalFields fields

end

/-- Leaves of a list are replaced in each of its expressions. -/
theorem rewriteList_eq_map (r : Rewriting) (es : List Expr) :
    rewriteList r es = es.map (rewrite r) := by
  induction es with
  | nil => rfl
  | cons e es ih => rw [rewriteList, ih, List.map_cons]

/-- Leaves of fields are replaced in the type of each of them. -/
theorem rewriteFields_eq_map (r : Rewriting) (fields : List (Field Expr)) :
    rewriteFields r fields =
      fields.map fun f => ⟨f.name, f.type.rewrite r, f.optional, f.doc⟩ := by
  induction fields with
  | nil => rfl
  | cons f fields ih => rw [rewriteFields, ih, List.map_cons]

/-- Whether an expression is a union. -/
def isUnion : Expr → Bool
  | .union _ => true
  | _ => false

/-- A type or null has the alternatives of the type behind null. -/
theorem nullable_eq (e : Expr) :
    e.nullable = ofAlternatives (.keyword .null :: e.alternatives).eraseDups := by
  rw [nullable, unionOf_eq]
  simp [alternatives]

/-- The alternatives of a type or null. -/
theorem alternatives_nullable (e : Expr) :
    e.nullable.alternatives = (.keyword .null :: e.alternatives).eraseDups := by
  rw [nullable_eq, List.eraseDups_cons]
  generalize (e.alternatives.filter fun part => !part == .keyword .null).eraseDups = parts
  cases parts with
  | nil => rfl
  | cons part parts => rfl

/-- A type that may be null already does not change if null is added once more. -/
theorem nullable_nullable (e : Expr) : e.nullable.nullable = e.nullable := by
  have hrepeated : (.keyword .null :: (.keyword .null :: e.alternatives).eraseDups).eraseDups =
      (.keyword .null :: e.alternatives).eraseDups := by
    calc (.keyword .null :: (.keyword .null :: e.alternatives).eraseDups).eraseDups
        = (.keyword .null :: .keyword .null :: e.alternatives).eraseDups :=
          eraseDups_append_eraseDups [Expr.keyword .null] (.keyword .null :: e.alternatives)
      _ = (.keyword .null :: e.alternatives).eraseDups := by
          rw [List.eraseDups_cons, List.eraseDups_cons]
          simp
  rw [nullable_eq e.nullable, alternatives_nullable, hrepeated, nullable_eq]

end Declgen.TypeScript.Expr
