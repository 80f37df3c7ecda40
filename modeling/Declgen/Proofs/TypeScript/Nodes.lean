import Declgen.Proofs.EraseDups
import Declgen.TypeScript.Declaration

/-!
# The nodes of type expressions

The nodes of an expression are the expression itself and all that stands within it, at any depth.
The units that an expression mentions are those that its reference nodes name.
-/

namespace Declgen.TypeScript

namespace Expr

/-- Induction over the parts of an expression. Lists of parts come all at once. -/
@[induction_eliminator]
theorem induct {motive : Expr → Prop} (keyword : ∀ keyword, motive (.keyword keyword))
    (literal : ∀ value, motive (.literal value)) (verbatim : ∀ text, motive (.verbatim text))
    (reference : ∀ unit name, motive (.reference unit name))
    (genericReference : ∀ unit name arguments, (∀ e ∈ arguments, motive e) →
      motive (.genericReference unit name arguments))
    (parameter : ∀ name, motive (.parameter name))
    (array : ∀ element, motive element → motive (.array element))
    (union : ∀ members, (∀ e ∈ members, motive e) → motive (.union members))
    (object : ∀ fields, (∀ f ∈ fields, motive f.type) → motive (.object fields))
    (index : ∀ key value, motive key → motive value → motive (.index key value))
    (mapped : ∀ key value optional, motive key → motive value →
      motive (.mapped key value optional)) (e : Expr) : motive e :=
  @Expr.rec motive (fun es => ∀ e ∈ es, motive e) (fun fields => ∀ f ∈ fields, motive f.type)
    (fun f => motive f.type) keyword literal verbatim reference genericReference parameter array
    union object index mapped (fun _ h => absurd h List.not_mem_nil)
    (fun _ _ head tail _ h => (List.mem_cons.mp h).elim (fun eq => eq ▸ head) (tail _))
    (fun _ h => absurd h List.not_mem_nil)
    (fun _ _ head tail _ h => (List.mem_cons.mp h).elim (fun eq => eq ▸ head) (tail _))
    (fun _ _ _ _ h => h) e

mutual

/-- The expression and all that stands within it. -/
def nodes : Expr → List Expr
  | .keyword word => [.keyword word]
  | .literal value => [.literal value]
  | .verbatim text => [.verbatim text]
  | .reference unit name => [.reference unit name]
  | .genericReference unit name arguments =>
    .genericReference unit name arguments :: nodesList arguments
  | .parameter name => [.parameter name]
  | .array element => .array element :: nodes element
  | .union members => .union members :: nodesList members
  | .object fields => .object fields :: nodesFields fields
  | .index key value => .index key value :: (nodes key ++ nodes value)
  | .mapped key value optional => .mapped key value optional :: (nodes key ++ nodes value)

/-- The nodes of several expressions. -/
def nodesList : List Expr → List Expr
  | [] => []
  | e :: es => nodes e ++ nodesList es

/-- The nodes of the types of fields. -/
def nodesFields : List (Field Expr) → List Expr
  | [] => []
  | ⟨_, type, _, _⟩ :: fields => nodes type ++ nodesFields fields

end

/-- The unit that a node refers to by itself. -/
def target? : Expr → Option UnitId
  | .reference unit _ | .genericReference unit _ _ => some unit
  | _ => none

/-- The unit that a node refers to by itself, with the name that it is referred to by. -/
def link? : Expr → Option (UnitId × String)
  | .reference unit name | .genericReference unit name _ => some (unit, name)
  | _ => none

/-- The unit that a node refers to is the one that it links to. -/
theorem target?_eq_map_link? (e : Expr) : e.target? = e.link?.map (·.1) := by cases e <;> rfl

/-- The nodes of a list are those of its expressions. -/
theorem nodesList_eq_flatMap (es : List Expr) : nodesList es = es.flatMap nodes := by
  induction es with
  | nil => rfl
  | cons e es ih => rw [nodesList, ih, List.flatMap_cons]

/-- The nodes of fields are those of their types. -/
theorem nodesFields_eq_flatMap (fields : List (Field Expr)) :
    nodesFields fields = fields.flatMap fun f => f.type.nodes := by
  induction fields with
  | nil => rfl
  | cons f fields ih => rw [nodesFields, ih, List.flatMap_cons]

/-- A list mentions what its expressions mention. -/
theorem mentionsList_eq_flatMap (es : List Expr) : mentionsList es = es.flatMap mentions := by
  induction es with
  | nil => rfl
  | cons e es ih => rw [mentionsList, ih, List.flatMap_cons]

/-- Fields mention what their types mention. -/
theorem mentionsFields_eq_flatMap (fields : List (Field Expr)) :
    mentionsFields fields = fields.flatMap fun f => f.type.mentions := by
  induction fields with
  | nil => rfl
  | cons f fields ih => rw [mentionsFields, ih, List.flatMap_cons]

/-- The units that an expression mentions are the targets of its nodes. -/
theorem mentions_eq_filterMap (e : Expr) : e.mentions = e.nodes.filterMap target? := by
  induction e with
  | genericReference unit name arguments ih =>
    simp only [mentions, nodes, mentionsList_eq_flatMap, nodesList_eq_flatMap, target?,
      List.filterMap_cons, List.filterMap_flatMap]
    exact congrArg _ (List.flatMap_congr ih)
  | array element ih => simp only [mentions, nodes, target?, List.filterMap_cons, ih]
  | union members ih =>
    simp only [mentions, nodes, mentionsList_eq_flatMap, nodesList_eq_flatMap, target?,
      List.filterMap_cons, List.filterMap_flatMap]
    exact List.flatMap_congr ih
  | object fields ih =>
    simp only [mentions, nodes, mentionsFields_eq_flatMap, nodesFields_eq_flatMap, target?,
      List.filterMap_cons, List.filterMap_flatMap]
    exact List.flatMap_congr ih
  | index key value ihkey ihvalue =>
    simp only [mentions, nodes, target?, List.filterMap_cons, List.filterMap_append, ihkey, ihvalue]
  | mapped key value optional ihkey ihvalue =>
    simp only [mentions, nodes, target?, List.filterMap_cons, List.filterMap_append, ihkey, ihvalue]
  | _ => rfl

/-- An expression refers to the targets of its nodes, to each of them once. -/
theorem mem_references_iff {e : Expr} {unit : UnitId} :
    unit ∈ e.references ↔ ∃ node ∈ e.nodes, node.target? = some unit := by
  rw [references, List.mem_eraseDups, mentions_eq_filterMap, List.mem_filterMap]

/-- No unit is listed twice among those that an expression refers to. -/
theorem nodup_references (e : Expr) : e.references.Nodup := nodup_eraseDups _

/-! ### Unions -/

/-- The alternatives of a type: the members of a union, and any other type by itself. -/
def alternatives : Expr → List Expr
  | .union members => members
  | e => [e]

/-- The type with given alternatives. -/
def ofAlternatives : List Expr → Expr
  | [] => .keyword .never
  | [e] => e
  | es => .union es

/-- The union of types is the type with their distinct alternatives. -/
theorem unionOf_eq (members : List Expr) :
    unionOf members = ofAlternatives (members.flatMap alternatives).eraseDups := by
  unfold unionOf
  dsimp only
  generalize hparts : @List.eraseDups Expr _ (List.flatMap _ members) = parts
  have halternatives : (members.flatMap alternatives).eraseDups = parts := hparts
  rw [halternatives]
  cases parts with
  | nil => rfl
  | cons part rest => cases rest <;> rfl

/-- The nodes of a union are those of its members, and possibly unions or `never`. -/
theorem mem_nodes_unionOf {members : List Expr} {node : Expr}
    (h : node ∈ (unionOf members).nodes) :
    (∃ parts, node = .union parts) ∨ node = .keyword .never ∨
      ∃ member ∈ members, node ∈ member.nodes := by
  have hpart {part : Expr} (hpart : part ∈ (members.flatMap alternatives).eraseDups)
      (hnode : node ∈ part.nodes) : ∃ member ∈ members, node ∈ member.nodes := by
    rw [List.mem_eraseDups, List.mem_flatMap] at hpart
    obtain ⟨member, hmember, hpart⟩ := hpart
    refine ⟨member, hmember, ?_⟩
    cases member with
    | union inner =>
      rw [nodes, nodesList_eq_flatMap]
      exact List.mem_cons_of_mem _ (List.mem_flatMap.mpr ⟨part, hpart, hnode⟩)
    | _ =>
      rw [← List.mem_singleton.mp hpart]
      exact hnode
  rw [unionOf_eq] at h
  generalize (members.flatMap alternatives).eraseDups = parts at h hpart
  unfold ofAlternatives at h
  split at h
  · exact .inr (.inl (by simpa [nodes] using h))
  · exact .inr (.inr (hpart (by simp) h))
  · rw [nodes, nodesList_eq_flatMap] at h
    rcases List.mem_cons.mp h with rfl | h
    · exact .inl ⟨_, rfl⟩
    · obtain ⟨part, hmem, hnode⟩ := List.mem_flatMap.mp h
      exact .inr (.inr (hpart hmem hnode))

/-- A node that refers to a unit stands in one of the alternatives. -/
theorem exists_alternative {e node : Expr} {link : UnitId × String} (h : node ∈ e.nodes)
    (hlink : node.link? = some link) : ∃ part ∈ e.alternatives, node ∈ part.nodes := by
  cases e with
  | union members =>
    rw [nodes, nodesList_eq_flatMap] at h
    rcases List.mem_cons.mp h with rfl | h
    · cases hlink
    · exact List.mem_flatMap.mp h
  | _ => exact ⟨_, List.mem_singleton_self _, h⟩

/-- A union refers to all that its members refer to. -/
theorem mem_nodes_unionOf_of_link {members : List Expr} {member node : Expr}
    {link : UnitId × String} (hmember : member ∈ members) (h : node ∈ member.nodes)
    (hlink : node.link? = some link) : node ∈ (unionOf members).nodes := by
  obtain ⟨part, hpart, hnode⟩ := exists_alternative h hlink
  have hmem : part ∈ (members.flatMap alternatives).eraseDups :=
    List.mem_eraseDups.mpr (List.mem_flatMap.mpr ⟨member, hmember, hpart⟩)
  rw [unionOf_eq]
  generalize (members.flatMap alternatives).eraseDups = parts at hmem
  unfold ofAlternatives
  split
  · cases hmem
  · rw [List.mem_singleton.mp hmem] at hnode
    exact hnode
  · rw [nodes, nodesList_eq_flatMap]
    exact List.mem_cons_of_mem _ (List.mem_flatMap.mpr ⟨part, hmem, hnode⟩)

end Expr

namespace Declaration

/-- The nodes of the type of an alias. An enumeration has none. -/
def nodes : Declaration → List Expr
  | .alias _ _ type => type.nodes
  | .enum _ _ => []

/-- A declaration refers to the units that nodes of it refer to. -/
theorem mem_references_iff {unit : UnitId} : ∀ {declaration : Declaration},
    unit ∈ declaration.references ↔ ∃ node ∈ declaration.nodes, node.target? = some unit
  | .alias _ _ _ => Expr.mem_references_iff
  | .enum _ _ => by simp [references, nodes]

/-- No unit is listed twice among those that a declaration refers to. -/
theorem nodup_references : ∀ declaration : Declaration, declaration.references.Nodup
  | .alias _ _ type => Expr.nodup_references type
  | .enum _ _ => List.nodup_nil

end Declaration

end Declgen.TypeScript
