import Declgen.Proofs.Outcome
import Declgen.Proofs.Types.Unfolding
import Declgen.Walk.Run
import Mathlib.Data.Finset.NAry
import Mathlib.Tactic.Ring

/-!
# How many names a model has

The names of at most 32 levels are made from the names that the model itself holds, so there are
only finitely many of them. Since no two units have the same name, this bounds the units of a walk
and is why a walk ends.
-/

namespace Declgen.Walk

open Model

/-- The name that a slot of a model stands for by itself. -/
def leafName (a : Arena) (id : Nat) : String :=
  match a.get id with
  | .ok (.primitive kind) => pascalName kind.name
  | .ok (.enum e) => pascalName e.name
  | .ok (.complex c) => pascalName c.name
  | .ok (.parameter name) => pascalName name
  | _ => ""

/-- The lists of at most `n` elements of a set. -/
def listsUpTo (s : Finset String) : Nat → Finset (List String)
  | 0 => {[]}
  | n + 1 => insert [] (Finset.image₂ List.cons s (listsUpTo s n))

/-- The names that are made from the names `parts` of the next lower level, and those of the
model itself. -/
def namesOver (a : Arena) (parts : Finset String) : Finset String :=
  (Finset.range a.size).image (leafName a) ∪ parts.image ("Nullable" ++ ·) ∪
    parts.image (· ++ "Array") ∪
    Finset.image₂ (fun key value => key ++ "To" ++ value ++ "Dictionary") parts parts ∪
    Finset.image₂ (fun first rest => first ++ "Of" ++ String.intercalate "And" rest) parts
      (listsUpTo parts (maxArity a))

/-- A set that holds the names of at most `levels` levels. -/
def namesWithin (a : Arena) : Nat → Finset String
  | 0 => ∅
  | levels + 1 => namesOver a (namesWithin a levels)

/-- Without levels there are no names. -/
private theorem namesWithin_zero (a : Arena) : namesWithin a 0 = ∅ := rfl

/-- With one more level there are the names made from those below. -/
private theorem namesWithin_succ (a : Arena) (levels : Nat) :
    namesWithin a (levels + 1) = namesOver a (namesWithin a levels) := rfl

-- The set of the names of 32 levels is never to be computed.
attribute [irreducible] namesWithin

/-- A list of elements that is not too long is among the lists. -/
theorem mem_listsUpTo {s : Finset String} {n : Nat} {names : List String}
    (hlength : names.length ≤ n) (hnames : ∀ name ∈ names, name ∈ s) : names ∈ listsUpTo s n := by
  induction n generalizing names with
  | zero =>
    rw [List.length_eq_zero_iff.mp (Nat.le_zero.mp hlength)]
    exact Finset.mem_singleton_self []
  | succ n ih =>
    cases names with
    | nil => exact Finset.mem_insert_self [] _
    | cons name names =>
      refine Finset.mem_insert_of_mem (Finset.mem_image₂_of_mem (hnames name (by simp)) ?_)
      exact ih (by simpa using hlength) fun other h => hnames other (by simp [h])

section Members

variable {a : Arena} {levels : Nat} {id : Nat} {part first second : String} {rest : List String}

/-- What a type of the model is called by itself has one level. -/
theorem leafName_mem (hid : id < a.size) (levels : Nat) :
    leafName a id ∈ namesWithin a (levels + 1) := by
  simp only [namesWithin_succ, namesOver, Finset.mem_union]
  exact .inl (.inl (.inl (.inl (Finset.mem_image_of_mem _ (Finset.mem_range.mpr hid)))))

/-- The name of another type or null has one level more. -/
theorem nullableName_mem (h : part ∈ namesWithin a levels) :
    "Nullable" ++ part ∈ namesWithin a (levels + 1) := by
  simp only [namesWithin_succ, namesOver, Finset.mem_union]
  exact .inl (.inl (.inl (.inr (Finset.mem_image_of_mem _ h))))

/-- The name of a list has one level more. -/
theorem arrayName_mem (h : part ∈ namesWithin a levels) :
    part ++ "Array" ∈ namesWithin a (levels + 1) := by
  simp only [namesWithin_succ, namesOver, Finset.mem_union]
  exact .inl (.inl (.inr (Finset.mem_image_of_mem (· ++ "Array") h)))

/-- The name of a map has one level more. -/
theorem dictionaryName_mem (hfirst : first ∈ namesWithin a levels)
    (hsecond : second ∈ namesWithin a levels) :
    first ++ "To" ++ second ++ "Dictionary" ∈ namesWithin a (levels + 1) := by
  simp only [namesWithin_succ, namesOver, Finset.mem_union]
  exact .inl (.inr (Finset.mem_image₂_of_mem hfirst hsecond))

/-- The name of an instantiation has one level more. -/
theorem instantiationName_mem (hfirst : first ∈ namesWithin a levels)
    (hlength : rest.length ≤ maxArity a) (hrest : ∀ name ∈ rest, name ∈ namesWithin a levels) :
    first ++ "Of" ++ String.intercalate "And" rest ∈ namesWithin a (levels + 1) := by
  simp only [namesWithin_succ, namesOver, Finset.mem_union]
  exact .inr (Finset.mem_image₂_of_mem hfirst (mem_listsUpTo hlength hrest))

end Members

/-- How many such lists there are at most. -/
theorem card_listsUpTo_le (s : Finset String) (n : Nat) :
    (listsUpTo s n).card ≤ (s.card + 1) ^ n := by
  induction n with
  | zero => simp [listsUpTo]
  | succ n ih =>
    have hpos : 1 ≤ (s.card + 1) ^ n := Nat.one_le_pow _ _ (by omega)
    calc (listsUpTo s (n + 1)).card
        ≤ (Finset.image₂ List.cons s (listsUpTo s n)).card + 1 := Finset.card_insert_le _ _
      _ ≤ s.card * (listsUpTo s n).card + 1 := by
        have := Finset.card_image₂_le List.cons s (listsUpTo s n)
        omega
      _ ≤ s.card * (s.card + 1) ^ n + (s.card + 1) ^ n :=
        Nat.add_le_add (Nat.mul_le_mul_left _ ih) hpos
      _ = (s.card + 1) ^ (n + 1) := by ring

/-- No type of the model has more parameters or arguments than `maxArity` says. -/
theorem arity_le_maxArity {a : Arena} {id : Nat} {d : Descriptor} (h : a.get id = .ok d) :
    arity d ≤ maxArity a := by
  have hmem : some d ∈ a.slots.toList := by
    have hslot := Arena.get_eq_ok_iff.mp h
    rw [← Array.getElem?_toList] at hslot
    exact List.mem_of_getElem? hslot
  -- The greatest number so far never decreases along the slots.
  have hfold (slots : List (Option Descriptor)) (most : Nat) :
      most ≤ slots.foldl (fun most slot => max most ((slot.map arity).getD 0)) most ∧
        (some d ∈ slots →
          arity d ≤ slots.foldl (fun most slot => max most ((slot.map arity).getD 0)) most) := by
    induction slots generalizing most with
    | nil => simp
    | cons slot slots ih =>
      simp only [List.foldl_cons, List.mem_cons]
      obtain ⟨hrest, hlater⟩ := ih (max most ((slot.map arity).getD 0))
      constructor
      · exact Nat.le_trans (Nat.le_max_left _ _) hrest
      · rintro (rfl | hslots)
        · exact Nat.le_trans (Nat.le_max_right _ _) hrest
        · exact hlater hslots
  rw [maxArity, ← Array.foldl_toList]
  exact (hfold a.slots.toList 0).2 hmem

/-- The name of a type over a model is among those of its levels. -/
theorem name?_mem {a : Arena} {t : TypeTree} (ht : t.Over a) {levels : Nat} {name : String}
    (hname : t.name? levels = some name) : name ∈ namesWithin a levels := by
  induction levels generalizing t name with
  | zero => simp [TypeTree.name?] at hname
  | succ levels ih =>
    cases ht with
    | primitive h | enum h | record h | parameter h =>
      cases hname
      have hmem := leafName_mem (Arena.get_lt h) levels
      rw [leafName, h] at hmem
      exact hmem
    | nullable h =>
      obtain ⟨part, hpart, hname⟩ := Option.bind_eq_some_iff.mp hname
      cases hname
      exact nullableName_mem (ih h hpart)
    | array h =>
      obtain ⟨part, hpart, hname⟩ := Option.bind_eq_some_iff.mp hname
      cases hname
      exact arrayName_mem (ih h hpart)
    | dictionary hkey hvalue =>
      obtain ⟨key, hk, hname⟩ := Option.bind_eq_some_iff.mp hname
      obtain ⟨value, hv, hname⟩ := Option.bind_eq_some_iff.mp hname
      cases hname
      exact dictionaryName_mem (ih hkey hk) (ih hvalue hv)
    | instantiation h hinstantiates hlength harguments =>
      obtain ⟨first, hfirst, hname⟩ := Option.bind_eq_some_iff.mp hname
      obtain ⟨rest, hrest, hname⟩ := Option.bind_eq_some_iff.mp hname
      cases hname
      refine instantiationName_mem (ih (.record h) hfirst) ?_ fun part hpart => ?_
      · rw [← (mapM_eq_some_iff.mp hrest).length_eq, ← hlength]
        exact arity_le_maxArity h
      · obtain ⟨t, ht, hpart⟩ := exists_of_mem_mapM hrest hpart
        exact ih (harguments t ht) hpart

/-- What one level adds to the names of the model itself. -/
theorem card_namesOver_lt (a : Arena) (parts : Finset String) :
    (namesOver a parts).card < a.size + 2 * (parts.card + 1) ^ (maxArity a + 2) := by
  have hlists := card_listsUpTo_le parts (maxArity a)
  have hcard : (namesOver a parts).card ≤ a.size + parts.card + parts.card +
      parts.card * parts.card + parts.card * (listsUpTo parts (maxArity a)).card := by
    have hleaves := Finset.card_image_le (s := Finset.range a.size) (f := leafName a)
    rw [Finset.card_range] at hleaves
    refine (Finset.card_union_le _ _).trans (Nat.add_le_add ?_ (Finset.card_image₂_le _ _ _))
    refine (Finset.card_union_le _ _).trans (Nat.add_le_add ?_ (Finset.card_image₂_le _ _ _))
    refine (Finset.card_union_le _ _).trans (Nat.add_le_add ?_ Finset.card_image_le)
    exact (Finset.card_union_le _ _).trans (Nat.add_le_add hleaves Finset.card_image_le)
  generalize parts.card = m at hcard hlists ⊢
  have hproduct := Nat.mul_le_mul_left m hlists
  have hpos : 1 ≤ m + 1 := by omega
  have hsquare : (m + 1) ^ 2 ≤ (m + 1) ^ (maxArity a + 2) := Nat.pow_le_pow_right hpos (by omega)
  have hpower : (m + 1) ^ (maxArity a + 1) ≤ (m + 1) ^ (maxArity a + 2) :=
    Nat.pow_le_pow_right hpos (by omega)
  have hexpand : (m + 1) ^ (maxArity a + 1) = m * (m + 1) ^ maxArity a + (m + 1) ^ maxArity a := by
    ring
  have hsq : (m + 1) ^ 2 = m * m + 2 * m + 1 := by ring
  omega

/-- One more level multiplies the exponent of the bound by `maxArity a + 3`. -/
theorem card_namesWithin_lt (a : Arena) (levels : Nat) :
    (namesWithin a levels).card < 2 ^ ((a.size + 8) * (maxArity a + 3) ^ levels) := by
  induction levels with
  | zero => simp [namesWithin_zero]
  | succ levels ih =>
    generalize hexponent : (a.size + 8) * (maxArity a + 3) ^ levels = e at ih
    have he : a.size + 8 ≤ e := by
      rw [← hexponent]
      exact Nat.le_mul_of_pos_right _ (Nat.pow_pos (by omega))
    have hpower : ((namesWithin a levels).card + 1) ^ (maxArity a + 2) ≤
        2 ^ (e * (maxArity a + 2)) := by
      rw [Nat.pow_mul]
      exact Nat.pow_le_pow_left ih _
    have hpos : 1 ≤ 2 ^ (e * (maxArity a + 2)) := Nat.one_le_two_pow
    have hsize : a.size + 2 ≤ 2 ^ (a.size + 8) := by
      have hlt : a.size < 2 ^ a.size := Nat.lt_two_pow_self
      rw [Nat.pow_add]
      omega
    calc (namesWithin a (levels + 1)).card
        < a.size + 2 * ((namesWithin a levels).card + 1) ^ (maxArity a + 2) :=
          namesWithin_succ a levels ▸ card_namesOver_lt a (namesWithin a levels)
      _ ≤ a.size * 2 ^ (e * (maxArity a + 2)) + 2 * 2 ^ (e * (maxArity a + 2)) :=
          Nat.add_le_add (Nat.le_mul_of_pos_right _ hpos) (Nat.mul_le_mul_left 2 hpower)
      _ = (a.size + 2) * 2 ^ (e * (maxArity a + 2)) := by ring
      _ ≤ 2 ^ (a.size + 8) * 2 ^ (e * (maxArity a + 2)) := Nat.mul_le_mul_right _ hsize
      _ = 2 ^ (a.size + 8 + e * (maxArity a + 2)) := by rw [← Nat.pow_add]
      _ ≤ 2 ^ (e + e * (maxArity a + 2)) := Nat.pow_le_pow_right (by omega) (by omega)
      _ = 2 ^ ((a.size + 8) * (maxArity a + 3) ^ (levels + 1)) := by
          rw [Nat.pow_succ, ← Nat.mul_assoc, hexponent]
          ring_nf

/-- There are fewer than `2 ^ batchBound a` names of at most 32 levels. -/
theorem card_namesWithin_lt_batchBound (a : Arena) :
    (namesWithin a nameLevels).card < 2 ^ batchBound a := by
  apply Nat.lt_of_lt_of_le (card_namesWithin_lt a nameLevels)
  unfold batchBound
  generalize nameLevels = levels
  refine Nat.pow_le_pow_right (by omega) (Nat.mul_le_mul_left _ ?_)
  exact Nat.pow_le_pow_right (by omega) (Nat.le_succ levels)

/-! ### Names of units -/

/-- The names that the units of a model can have. -/
def unitNames (a : Arena) : Finset String := (namesWithin a nameLevels).image TypeScript.safeName

/-- There are fewer names than units that a walk may build. -/
theorem card_unitNames_lt (a : Arena) : (unitNames a).card < 2 ^ batchBound a :=
  Nat.lt_of_le_of_lt Finset.card_image_le (card_namesWithin_lt_batchBound a)

/-- A name of enough levels, made safe, is one of a unit. -/
theorem safeName_mem_unitNames {a : Arena} {name : String} (h : name ∈ namesWithin a nameLevels) :
    TypeScript.safeName name ∈ unitNames a := by
  unfold unitNames
  generalize namesWithin a nameLevels = names at h ⊢
  exact Finset.mem_image_of_mem _ h

/-- The name of a type is the one in Pascal case, made safe. -/
theorem typeName_eq (name : String) :
    TypeScript.typeName name = TypeScript.safeName (pascalName name) := by
  rw [TypeScript.typeName, pascalName]

/-- The name of a unit is the name made for its type, made safe. -/
theorem TypeTree.exists_name?_of_header? {t : TypeTree} {header : Units.Header}
    (h : t.header? = some header) :
    ∃ name, t.name? nameLevels = some name ∧ header.name = TypeScript.safeName name := by
  cases t with
  | enum id e =>
    obtain rfl := Option.some.inj h
    exact ⟨pascalName e.name, rfl, typeName_eq e.name⟩
  | record id c =>
    obtain rfl := Option.some.inj h
    exact ⟨pascalName c.name, rfl, typeName_eq c.name⟩
  | instantiation definition c arguments =>
    obtain ⟨name, hname, rfl⟩ := Option.map_eq_some_iff.mp h
    exact ⟨name, hname, rfl⟩
  | _ => cases h

/-- The declared name of a named type is made from a name of at most 32 levels. -/
theorem header?_name_mem {a : Arena} {t : TypeTree} (ht : t.Over a) {header : Units.Header}
    (hheader : t.header? = some header) : header.name ∈ unitNames a := by
  obtain ⟨name, hname, heq⟩ := TypeTree.exists_name?_of_header? hheader
  rw [heq]
  exact safeName_mem_unitNames (name?_mem ht hname)

/-- Fewer than `2 ^ batchBound a` types over a model have headers with different names. -/
theorem length_headers_lt {a : Arena} {headers : List Units.Header}
    (hheaders : ∀ header ∈ headers, ∃ t : TypeTree, t.Over a ∧ t.header? = some header)
    (hnames : (headers.map (·.name)).Nodup) : headers.length < 2 ^ batchBound a := by
  calc headers.length
      = (headers.map (·.name)).toFinset.card := by
        rw [List.toFinset_card_of_nodup hnames, List.length_map]
    _ ≤ (unitNames a).card := by
        refine Finset.card_le_card fun name hname => ?_
        obtain ⟨header, hheader, rfl⟩ := List.mem_map.mp (List.mem_toFinset.mp hname)
        obtain ⟨t, ht, htheader⟩ := hheaders header hheader
        exact header?_name_mem ht htheader
    _ < 2 ^ batchBound a := card_unitNames_lt a

end Declgen.Walk
