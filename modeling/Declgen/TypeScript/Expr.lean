import Declgen.Enumeration

/-!
# Type expressions of TypeScript

A type expression is a tree. Where a type refers to a declaration, the tree holds a reference
and never the declaration itself, so recursive types are finite trees too.
-/

namespace Declgen.TypeScript

/-- The number of a unit, that is, of a declaration among those that are generated together. -/
abbrev UnitId := Nat

/-- A built-in type that is written as one word. -/
inductive Keyword where
  | number
  | string
  | boolean
  | null
  | undefined
  | unknown
  | never
deriving DecidableEq

/-- The word itself. -/
def Keyword.word : Keyword → String
  | .number => "number"
  | .string => "string"
  | .boolean => "boolean"
  | .null => "null"
  | .undefined => "undefined"
  | .unknown => "unknown"
  | .never => "never"

/-- A field of an object type, where `τ` is the kind of its type. -/
@[ext] structure Field (τ : Type) where
  /-- The name of the field. -/
  name : String
  /-- The type of its values. -/
  type : τ
  /-- Whether the field may be left out. -/
  optional : Bool
  /-- The documentation of the field. -/
  doc : Option String
deriving DecidableEq

/-- A type expression. -/
inductive Expr where
  /-- A built-in type. -/
  | keyword (keyword : Keyword)
  /-- The type of one constant. -/
  | literal (value : Literal)
  /-- A type given by its text. -/
  | verbatim (text : String)
  /-- A declaration without type parameters. -/
  | reference (unit : UnitId) (name : String)
  /-- A declaration applied to type arguments. -/
  | genericReference (unit : UnitId) (name : String) (arguments : List Expr)
  /-- A type parameter of the enclosing declaration. -/
  | parameter (name : String)
  /-- An array. -/
  | array (element : Expr)
  /-- One of several types. -/
  | union (members : List Expr)
  /-- An object with known fields. -/
  | object (fields : List (Field Expr))
  /-- An object whose keys all have the type `key`. -/
  | index (key value : Expr)
  /-- An object with one field for every value of the type `key`. -/
  | mapped (key value : Expr) (optional : Bool)

namespace Expr

mutual

/-- Whether two expressions are the same tree. -/
def same : Expr → Expr → Bool
  | .keyword a, .keyword b => a == b
  | .literal a, .literal b => a == b
  | .verbatim a, .verbatim b => a == b
  | .reference u a, .reference v b => u == v && a == b
  | .genericReference u a xs, .genericReference v b ys => u == v && a == b && sameList xs ys
  | .parameter a, .parameter b => a == b
  | .array a, .array b => same a b
  | .union xs, .union ys => sameList xs ys
  | .object fs, .object gs => sameFields fs gs
  | .index k a, .index l b => same k l && same a b
  | .mapped k a o, .mapped l b p => same k l && same a b && o == p
  | _, _ => false

/-- Whether two lists hold the same trees. -/
def sameList : List Expr → List Expr → Bool
  | [], [] => true
  | a :: as, b :: bs => same a b && sameList as bs
  | _, _ => false

/-- Whether two lists hold the same fields. -/
def sameFields : List (Field Expr) → List (Field Expr) → Bool
  | [], [] => true
  | ⟨n, a, o, d⟩ :: fs, ⟨m, b, p, e⟩ :: gs =>
    n == m && same a b && o == p && d == e && sameFields fs gs
  | _, _ => false

end

mutual

/-- The comparison of trees is equality. -/
theorem same_iff : ∀ a b : Expr, same a b = true ↔ a = b
  | .keyword _, b => by cases b <;> simp [same]
  | .literal _, b => by cases b <;> simp [same]
  | .verbatim _, b => by cases b <;> simp [same]
  | .reference _ _, b => by cases b <;> simp [same]
  | .genericReference _ _ xs, b => by
    cases b <;> simp [same, sameList_iff xs, and_assoc]
  | .parameter _, b => by cases b <;> simp [same]
  | .array a, b => by cases b <;> simp [same, same_iff a]
  | .union xs, b => by cases b <;> simp [same, sameList_iff xs]
  | .object fs, b => by cases b <;> simp [same, sameFields_iff fs]
  | .index k a, b => by cases b <;> simp [same, same_iff k, same_iff a]
  | .mapped k a _, b => by cases b <;> simp [same, same_iff k, same_iff a, and_assoc]

/-- The comparison of lists of trees is equality. -/
theorem sameList_iff : ∀ xs ys : List Expr, sameList xs ys = true ↔ xs = ys
  | [], ys => by cases ys <;> simp [sameList]
  | a :: as, ys => by cases ys <;> simp [sameList, same_iff a, sameList_iff as]

/-- The comparison of lists of fields is equality. -/
theorem sameFields_iff : ∀ fs gs : List (Field Expr), sameFields fs gs = true ↔ fs = gs
  | [], gs => by cases gs <;> simp [sameFields]
  | ⟨_, a, _, _⟩ :: fs, gs => by
    cases gs <;> simp [sameFields, same_iff a, sameFields_iff fs, Field.ext_iff, and_assoc]

end

/-- Expressions are equal if they are the same tree. -/
instance : DecidableEq Expr := fun a b => decidable_of_iff _ (same_iff a b)

/-- The union of several types. Members that are unions are replaced by their own members, and
repetitions are dropped. A single member stands for itself, and no member at all is `never`. -/
def unionOf (members : List Expr) : Expr :=
  let parts := members.flatMap fun
    | .union inner => inner
    | member => [member]
  match parts.eraseDups with
  | [] => .keyword .never
  | [part] => part
  | parts => .union parts

/-- The type whose values are `null` and those of another type. -/
def nullable (e : Expr) : Expr := unionOf [.keyword .null, e]

/-- Whether an array of this type is written with brackets after it. -/
def isSimple : Expr → Bool
  | .keyword _ | .literal _ | .reference .. | .genericReference .. | .parameter _ => true
  | _ => false

mutual

/-- The units that an expression refers to, in order and with repetitions. -/
def mentions : Expr → List UnitId
  | .keyword _ | .literal _ | .verbatim _ | .parameter _ => []
  | .reference unit _ => [unit]
  | .genericReference unit _ arguments => unit :: mentionsList arguments
  | .array element => mentions element
  | .union members => mentionsList members
  | .object fields => mentionsFields fields
  | .index key value => mentions key ++ mentions value
  | .mapped key value _ => mentions key ++ mentions value

/-- The units that the expressions of a list refer to. -/
def mentionsList : List Expr → List UnitId
  | [] => []
  | e :: es => mentions e ++ mentionsList es

/-- The units that the types of fields refer to. -/
def mentionsFields : List (Field Expr) → List UnitId
  | [] => []
  | ⟨_, type, _, _⟩ :: fields => mentions type ++ mentionsFields fields

end

/-- The units that an expression refers to, each once, in order of first use. -/
def references (e : Expr) : List UnitId := e.mentions.eraseDups

end Expr

end Declgen.TypeScript
