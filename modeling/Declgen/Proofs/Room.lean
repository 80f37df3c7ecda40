import Declgen.Walk.Identity
import Mathlib.Data.List.Perm.Subperm
import Mathlib.Logic.Relation

/-!
# Descents with a guard

A recursion that goes from an element to its parts is guarded twice: it keeps the elements above
the present one and stops where one of them comes back, and it is given a depth that it may not
exceed. Neither guard does anything where every descent from an element ends, since then no
element is below itself and the elements above are all different.

The identity and the name of a type are found by such descents. They differ only in the words that
are put around the texts of the parts, and in what is reported when the depth is exceeded.
-/

namespace Declgen

variable {α : Type} {part : α → α → Prop} {all above : List α} {depth : Nat} {a p : α}

/-- An element from which every descent ends is not below itself. -/
theorem not_transGen_self (h : Acc part a) : ¬ Relation.TransGen part a a := by
  have hall := h.transGen
  clear h
  induction hall with
  | intro a _ ih => exact fun hself => ih a hself hself

/-- What is known where a descent has come from the elements `above` to the element `a` and may go
on for `depth` levels: it ends, and there is a level for each element that may still come. -/
structure Room (part : α → α → Prop) (all : List α) (depth : Nat) (above : List α) (a : α) :
    Prop where
  /-- Every descent from the element ends. -/
  ends : Acc part a
  /-- The element is below all elements above. -/
  below : ∀ b ∈ above, Relation.TransGen part a b
  /-- These are different. -/
  nodup : above.Nodup
  /-- They are among the elements that can come. -/
  subset : above ⊆ all
  /-- There are enough levels for the others. -/
  deep : all.length < depth + above.length

namespace Room

/-- A descent that ends can start with more levels than there are elements. -/
theorem start (h : Acc part a) (hdepth : all.length < depth) : Room part all depth [] a :=
  ⟨h, by simp, .nil, List.nil_subset all, by simpa using hdepth⟩

/-- There is a level left. -/
theorem exists_depth (h : Room part all depth above a) : ∃ k, depth = k + 1 := by
  have hlength := (h.nodup.subperm h.subset).length_le
  have hdeep := h.deep
  exact ⟨depth - 1, by omega⟩

/-- The element has not come before. -/
theorem notMem (h : Room part all depth above a) : a ∉ above :=
  fun ha => not_transGen_self h.ends (h.below a ha)

/-- The element has not come before, as the check in a function says it. -/
theorem contains_eq_false [BEq α] [LawfulBEq α] (h : Room part all depth above a) :
    ¬ above.contains a = true := by
  simpa using h.notMem

/-- The descent can go on to a part. -/
theorem descend (h : Room part all (depth + 1) above a) (ha : a ∈ all) (hp : part p a) :
    Room part all depth (a :: above) p where
  ends := h.ends.inv hp
  below b hb := by
    rcases List.mem_cons.mp hb with rfl | hb
    · exact .single hp
    · exact .head hp (h.below b hb)
  nodup := List.nodup_cons.mpr ⟨h.notMem, h.nodup⟩
  subset := List.cons_subset.mpr ⟨ha, h.subset⟩
  deep := by
    have hdeep := h.deep
    rw [List.length_cons]
    omega

end Room

end Declgen

namespace Declgen.Walk

open Model

/-! ### Texts of types -/

/-- The words from which the text of a type is made, once the texts of its parts are known. -/
structure Wording where
  /-- The text of a type without parts. -/
  leaf : Descriptor → String
  /-- The text of a type with null. -/
  nullable : String → String
  /-- The text of a list. -/
  array : String → String
  /-- The text of a map. -/
  dictionary : String → String → String
  /-- The text of a generic record with arguments. -/
  instantiation : String → List String → String

namespace Wording

/-- The text of a type whose parts have texts. -/
def text (w : Wording) (part : TypeId → Except GenerateError String) :
    Descriptor → Except GenerateError String
  | .nullable inner => return w.nullable (← part inner)
  | .array element => return w.array (← part element)
  | .dictionary key value => return w.dictionary (← part key) (← part value)
  | .instantiation definition arguments =>
    return w.instantiation (← part definition) (← arguments.mapM part)
  | d => pure (w.leaf d)

/-- The text of a type that stands below the types `above`, at most `depth` levels deep. A type that
is deeper gives the error `deeper`. -/
def within (w : Wording) (deeper : Graph → TypeId → GenerateError) (g : Graph) :
    Nat → List TypeId → TypeId → Except GenerateError String
  | 0, above, id =>
    if above.contains id then .error (.cyclicName (g.label id)) else .error (deeper g id)
  | depth + 1, above, id =>
    if above.contains id then .error (.cyclicName (g.label id))
    else do w.text (w.within deeper g depth (id :: above)) (← g.get id)

end Wording

/-- The words of identities. -/
def identityWording : Wording where
  leaf
    | .primitive kind => kind.name
    | .enum e => e.qualifiedName
    | .complex c => recordIdentity c
    | .parameter name => "!" ++ name
    | _ => ""
  nullable inner := inner ++ "?"
  array element := element ++ "[]"
  dictionary key value := "Dictionary[" ++ key ++ "," ++ value ++ "]"
  instantiation definition arguments := definition ++ "[" ++ ",".intercalate arguments ++ "]"

/-- The words of names. -/
def nameWording : Wording where
  leaf
    | .primitive kind => pascalName kind.name
    | .enum e => pascalName e.name
    | .complex c => pascalName c.name
    | .parameter name => pascalName name
    | _ => ""
  nullable inner := "Nullable" ++ inner
  array element := element ++ "Array"
  dictionary key value := key ++ "To" ++ value ++ "Dictionary"
  instantiation definition arguments := definition ++ "Of" ++ "And".intercalate arguments

/-- The identity of a type is its text in the words of identities. -/
theorem identityWithin_eq_within (g : Graph) (depth : Nat) :
    identityWithin g depth =
      identityWording.within (fun g id => .cyclicName (g.label id)) g depth := by
  induction depth with
  | zero =>
    funext above id
    rw [identityWithin, Wording.within, ite_self]
  | succ depth ih =>
    funext above id
    rw [identityWithin, Wording.within, ih]
    refine congrArg _ (bind_congr fun d => ?_)
    cases d <;> rfl

/-- The name of a type is its text in the words of names. -/
theorem synthesizedWithin_eq_within (g : Graph) (levels : Nat) :
    synthesizedWithin g levels =
      nameWording.within (fun g id => .unsupported (g.label id) .nestedTooDeeply) g levels := by
  induction levels with
  | zero => rfl
  | succ levels ih =>
    funext above id
    rw [synthesizedWithin, Wording.within, ih]
    refine congrArg _ (bind_congr fun d => ?_)
    cases d <;> rfl

end Declgen.Walk
