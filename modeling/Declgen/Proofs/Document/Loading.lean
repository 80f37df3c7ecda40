import Declgen.Document.Load
import Declgen.Proofs.Outcome
import Declgen.Proofs.Types.Unfolding

/-!
# The invariant of loading

The slots of the definitions come first and are filled in order. The parts of type expressions
come after them, each part before the whole. Whether an instantiation fits its record can only be
said when every definition is in place, so until then it is noted.
-/

namespace Declgen.Document

open Model

mutual

/-- How many arguments the generic expressions within an expression have. -/
def TypeExpr.counts : TypeExpr → List Nat
  | .primitive _ | .ref _ | .parameter _ => []
  | .nullable inner => inner.counts
  | .array element => element.counts
  | .dictionary key value => key.counts ++ value.counts
  | .generic _ arguments => arguments.length :: TypeExpr.allCounts arguments

/-- How many arguments the generic expressions within several expressions have. -/
def TypeExpr.allCounts : List TypeExpr → List Nat
  | [] => []
  | e :: es => e.counts ++ TypeExpr.allCounts es

end

/-- How many arguments the generic expressions of a definition have. -/
def Definition.counts : Definition → List Nat
  | .complex c => (c.base.map TypeExpr.counts).getD [] ++ c.members.flatMap fun m => m.type.counts
  | .enum _ => []

/-- Whether a descriptor is the one that a definition stands for. -/
def Definition.Describes : Definition → Descriptor → Prop
  | .complex c, .complex type => type.name = c.name ∧ type.space = c.space ∧
    type.typeParams = c.typeParams
  | .enum e, .enum type => type = e
  | _, _ => False

/-- What is asked of the type with number `id` in an unfinished model of `size` types, of which the
first `count` belong to definitions. Instantiations are among those that have been noted. -/
def Prepared (notes : List (TypeId × Nat)) (count size id : Nat) : Descriptor → Prop
  | .primitive _ | .enum _ | .parameter _ => True
  | .complex c =>
    (∀ base : Nat, c.base = some base → base < size) ∧
      (∀ type : Nat, type ∈ c.members.map (·.type) → type < size) ∧
      (c.members.map (·.name)).Nodup
  | .nullable (inner : Nat) => inner < id
  | .array (element : Nat) => element < id
  | .dictionary (key : Nat) (value : Nat) => key < id ∧ value < id
  | .instantiation (definition : Nat) arguments =>
    definition < count ∧ (∀ argument : Nat, argument ∈ arguments → argument < id) ∧
      (definition, arguments.length) ∈ notes

/-- A later state of loading has all types and notes of an earlier one. -/
structure Loading.Advances (s s' : Loading) : Prop where
  /-- Types are only added. -/
  size : s.model.size ≤ s'.model.size
  /-- Notes are only added. -/
  notes : s.instantiations.toList ⊆ s'.instantiations.toList

/-- The state of loading in which the first `filled` of the definitions have their types. Every
noted instantiation has an allowed number of arguments. -/
structure Loading.Sound (definitions : List Definition) (allowed : Nat → Prop) (filled : Nat)
    (s : Loading) : Prop where
  /-- Every definition has a slot. -/
  size : definitions.length ≤ s.model.size
  /-- The slots of the definitions that have no type yet. -/
  empty : ∀ i : Nat, filled ≤ i → i < definitions.length → s.model.slots[i]? = some none
  /-- The slots of all other definitions. -/
  defined : ∀ (i : Nat) (d : Definition), definitions[i]? = some d → i < filled →
    ∃ type, s.model.slots[i]? = some (some type) ∧ d.Describes type ∧
      Prepared s.instantiations.toList definitions.length s.model.size i type
  /-- The slots after those of the definitions. -/
  parts : ∀ i : Nat, definitions.length ≤ i → i < s.model.size →
    ∃ type, s.model.slots[i]? = some (some type) ∧ type.qualifiedName? = none ∧
      Prepared s.instantiations.toList definitions.length s.model.size i type
  /-- The numbers of arguments that have been noted. -/
  allowed : ∀ note ∈ s.instantiations.toList, allowed note.2

/-- A state of the loader is reached from itself. -/
theorem Loading.Advances.refl (s : Loading) : s.Advances s := ⟨Nat.le_refl _, List.Subset.refl _⟩

/-- What is reached in two stretches is reached. -/
theorem Loading.Advances.trans {s s' s'' : Loading} (h : s.Advances s') (h' : s'.Advances s'') :
    s.Advances s'' :=
  ⟨Nat.le_trans h.size h'.size, List.Subset.trans h.notes h'.notes⟩

/-- A type that is prepared stays so. -/
theorem Prepared.advances {s s' : Loading} (h : s.Advances s') {count id : Nat} {d : Descriptor}
    (hd : Prepared s.instantiations.toList count s.model.size id d) :
    Prepared s'.instantiations.toList count s'.model.size id d := by
  cases d with
  | complex c =>
    obtain ⟨hbase, htypes, hnames⟩ := hd
    exact ⟨fun base hb => Nat.lt_of_lt_of_le (hbase base hb) h.size,
      fun type ht => Nat.lt_of_lt_of_le (htypes type ht) h.size, hnames⟩
  | instantiation definition arguments =>
    obtain ⟨hdefinition, harguments, hnote⟩ := hd
    exact ⟨hdefinition, harguments, h.notes hnote⟩
  | _ => exact hd

namespace Loading.Sound

variable {definitions : List Definition} {allowed : Nat → Prop} {filled : Nat} {s : Loading}

/-- Adding a part that fits the next place. -/
theorem addType (h : s.Sound definitions allowed filled) {d : Descriptor}
    (hname : d.qualifiedName? = none)
    (hd : Prepared s.instantiations.toList definitions.length s.model.size s.model.size d)
    {bad : ModelError → Prop} :
    Outcome (fun r => s.Advances r.2 ∧ r.1 < r.2.model.size ∧ r.2.Sound definitions allowed filled)
      bad ((Document.addType d).run s) := by
  have hadvances : s.Advances { s with model := (s.model.add d).1 } :=
    ⟨by simp [Arena.add, Arena.size], List.Subset.refl _⟩
  have hlt : s.model.size < (s.model.add d).1.size := by simp [Arena.add, Arena.size]
  have hslot (i : Nat) (hi : i < s.model.size) :
      (s.model.add d).1.slots[i]? = s.model.slots[i]? := by
    have hne : ¬ i = s.model.slots.size := Nat.ne_of_lt hi
    rw [Arena.add, Array.getElem?_push, if_neg hne]
  refine ⟨hadvances, hlt, ?_⟩
  constructor
  · exact Nat.le_trans h.size hadvances.size
  · intro i hfilled hi
    rw [← h.empty i hfilled hi]
    exact hslot i (Nat.lt_of_lt_of_le hi h.size)
  · intro i e he hfilled
    obtain ⟨type, htype, hdescribes, hprepared⟩ := h.defined i e he hfilled
    have hi : i < s.model.size :=
      Nat.lt_of_lt_of_le (List.getElem?_eq_some_iff.mp he).1 h.size
    exact ⟨type, (hslot i hi).trans htype, hdescribes, hprepared.advances hadvances⟩
  · intro i hcount hi
    by_cases hold : i < s.model.size
    · obtain ⟨type, htype, hnone, hprepared⟩ := h.parts i hcount hold
      exact ⟨type, (hslot i hold).trans htype, hnone, hprepared.advances hadvances⟩
    · have heq : i = s.model.size := by
        simp only [Arena.size, Array.size_push] at hi hold ⊢
        omega
      subst heq
      refine ⟨d, ?_, hname, hd.advances hadvances⟩
      simp [Arena.size]
  · exact h.allowed

/-- Noting an instantiation with an allowed number of arguments. -/
theorem noteInstantiation (h : s.Sound definitions allowed filled) {count : Nat}
    (hcount : allowed count) (definition : TypeId) :
    s.Advances { s with instantiations := s.instantiations.push (definition, count) } ∧
      Loading.Sound definitions allowed filled
        { s with instantiations := s.instantiations.push (definition, count) } := by
  have hadvances :
      s.Advances { s with instantiations := s.instantiations.push (definition, count) } :=
    ⟨Nat.le_refl _, by simp⟩
  refine ⟨hadvances, h.size, h.empty, ?_, ?_, ?_⟩
  · intro i d hd hi
    obtain ⟨type, htype, hdescribes, hprepared⟩ := h.defined i d hd hi
    exact ⟨type, htype, hdescribes, hprepared.advances hadvances⟩
  · intro i hcount hi
    obtain ⟨type, htype, hnone, hprepared⟩ := h.parts i hcount hi
    exact ⟨type, htype, hnone, hprepared.advances hadvances⟩
  · intro note hnote
    rw [Array.toList_push] at hnote
    rcases List.mem_append.mp hnote with hnote | hnote
    · exact h.allowed note hnote
    · rw [List.mem_singleton.mp hnote]
      exact hcount

end Loading.Sound

/-! ### Type expressions -/

section Expressions

variable {definitions : List Definition} {allowed : Nat → Prop} {filled : Nat} {s : Loading}
  {names : List (String × TypeId)} {referrer : String}

/-- If the names stand for definitions of a document, so does what is looked up among them. -/
theorem lookup_outcome (hnames : ∀ entry ∈ names, entry.2 < definitions.length) (name : String) :
    Outcome (fun id : Nat => id < definitions.length) (fun _ => True)
      (lookup names referrer name) := by
  unfold lookup
  have hlookup {name : String} {id : Nat} (h : names.lookup name = some id) :
      id < definitions.length := by
    obtain ⟨before, after, rfl, -⟩ := List.lookup_eq_some_iff.mp h
    exact hnames (name, id) (by simp)
  dsimp only
  split
  · rename_i id hid
    rcases Option.or_eq_some_iff.mp hid with hid | ⟨-, hid⟩
    · exact hlookup hid
    · obtain ⟨space, -, hid⟩ := Option.bind_eq_some_iff.mp hid
      exact hlookup hid
  · trivial

mutual

/-- Resolving an expression gives a type of the model and keeps what has been loaded. -/
theorem resolve_outcome (hnames : ∀ entry ∈ names, entry.2 < definitions.length) :
    ∀ (e : TypeExpr) {s : Loading}, s.Sound definitions allowed filled →
      (∀ count ∈ e.counts, allowed count) →
      Outcome (fun r => s.Advances r.2 ∧ r.1 < r.2.model.size ∧
        r.2.Sound definitions allowed filled) (fun _ => True) ((resolve names referrer e).run s)
  | .primitive kind, s, h, _ => h.addType (d := .primitive kind) rfl trivial
  | .parameter name, s, h, _ => h.addType (d := .parameter name) rfl trivial
  | .ref name, s, h, _ => by
    have hlookup : Outcome _ _ (lookup names referrer name) := lookup_outcome hnames name
    rw [resolve]
    cases hname : lookup names referrer name with
    | ok id =>
      have hid := hlookup.result hname
      exact ⟨.refl s, Nat.lt_of_lt_of_le hid h.size, h⟩
    | error e => trivial
  | .nullable inner, s, h, hcounts => by
    refine (resolve_outcome hnames inner h hcounts).run_bind fun id s₁ h₁ => ?_
    obtain ⟨hadvances, hid, hsound⟩ := h₁
    refine (hsound.addType (d := .nullable id) rfl hid).weaken fun r hr => ?_
    exact ⟨hadvances.trans hr.1, hr.2⟩
  | .array element, s, h, hcounts => by
    refine (resolve_outcome hnames element h hcounts).run_bind fun id s₁ h₁ => ?_
    obtain ⟨hadvances, hid, hsound⟩ := h₁
    refine (hsound.addType (d := .array id) rfl hid).weaken fun r hr => ?_
    exact ⟨hadvances.trans hr.1, hr.2⟩
  | .dictionary key value, s, h, hcounts => by
    simp only [TypeExpr.counts, List.mem_append] at hcounts
    refine (resolve_outcome hnames key h fun n hn => hcounts n (.inl hn)).run_bind
      fun id s₁ h₁ => ?_
    obtain ⟨hadvances, hid, hsound⟩ := h₁
    refine (resolve_outcome hnames value hsound fun n hn => hcounts n (.inr hn)).run_bind
      fun id' s₂ h₂ => ?_
    obtain ⟨hadvances', hid', hsound'⟩ := h₂
    refine (hsound'.addType (d := .dictionary id id') rfl
      ⟨Nat.lt_of_lt_of_le hid hadvances'.size, hid'⟩).weaken fun r hr => ?_
    exact ⟨hadvances.trans (hadvances'.trans hr.1), hr.2⟩
  | .generic definition arguments, s, h, hcounts => by
    simp only [TypeExpr.counts, List.mem_cons, forall_eq_or_imp] at hcounts
    refine (lookup_outcome hnames definition).lift_bind fun id hid => ?_
    refine (resolveList_outcome hnames arguments h hcounts.2).run_bind fun ids s₁ h₁ => ?_
    obtain ⟨hadvances, hids, hlength, hsound⟩ := h₁
    obtain ⟨hadvances', hsound'⟩ := hsound.noteInstantiation (hlength ▸ hcounts.1) id
    have hprepared : Prepared (s₁.instantiations.push (id, ids.length)).toList definitions.length
        s₁.model.size s₁.model.size (.instantiation id ids) := ⟨hid, hids, by simp⟩
    refine (hsound'.addType (d := .instantiation id ids) rfl hprepared).weaken fun r hr => ?_
    exact ⟨hadvances.trans (hadvances'.trans hr.1), hr.2⟩

/-- Resolving several expressions gives types of the model. -/
theorem resolveList_outcome (hnames : ∀ entry ∈ names, entry.2 < definitions.length) :
    ∀ (es : List TypeExpr) {s : Loading}, s.Sound definitions allowed filled →
      (∀ count ∈ TypeExpr.allCounts es, allowed count) →
      Outcome (fun r => s.Advances r.2 ∧ (∀ id : Nat, id ∈ r.1 → id < r.2.model.size) ∧
        r.1.length = es.length ∧ r.2.Sound definitions allowed filled) (fun _ => True)
        ((resolveList names referrer es).run s)
  | [], s, h, _ => ⟨.refl s, by simp, rfl, h⟩
  | e :: es, s, h, hcounts => by
    simp only [TypeExpr.allCounts, List.mem_append] at hcounts
    refine (resolve_outcome hnames e h fun n hn => hcounts n (.inl hn)).run_bind
      fun id s₁ h₁ => ?_
    obtain ⟨hadvances, hid, hsound⟩ := h₁
    refine (resolveList_outcome hnames es hsound fun n hn => hcounts n (.inr hn)).run_bind
      fun ids s₂ h₂ => ?_
    obtain ⟨hadvances', hids, hlength, hsound'⟩ := h₂
    refine ⟨hadvances.trans hadvances', fun i hi => ?_, by simp [hlength], hsound'⟩
    rcases List.mem_cons.mp hi with rfl | hi
    · exact Nat.lt_of_lt_of_le hid hadvances'.size
    · exact hids i hi

end

/-! ### Definitions -/

/-- The members of a record keep their names, each once, and get types of the model. -/
theorem resolveMembers_outcome (hnames : ∀ entry ∈ names, entry.2 < definitions.length)
    (h : s.Sound definitions allowed filled) {seen : List String} {members : List MemberDef}
    (hcounts : ∀ count ∈ members.flatMap fun m => m.type.counts, allowed count) :
    Outcome (fun r => s.Advances r.2 ∧
        (∀ type : Nat, type ∈ r.1.map (·.type) → type < r.2.model.size) ∧
        (∀ m ∈ r.1, m.name ∉ seen) ∧ (r.1.map (·.name)).Nodup ∧
        r.2.Sound definitions allowed filled) (fun _ => True)
      ((resolveMembers names referrer seen members).run s) := by
  induction members generalizing seen s with
  | nil => exact ⟨.refl s, by simp, by simp, by simp, h⟩
  | cons m members ih =>
    simp only [List.flatMap_cons, List.mem_append] at hcounts
    rw [resolveMembers]
    by_cases hseen : seen.contains m.name = true
    · rw [if_pos hseen]
      trivial
    rw [if_neg hseen]
    refine (resolve_outcome hnames m.type h fun n hn => hcounts n (.inl hn)).run_bind
      fun id s₁ h₁ => ?_
    obtain ⟨hadvances, hid, hsound⟩ := h₁
    refine (ih hsound fun n hn => hcounts n (.inr hn)).run_bind fun rest s₂ h₂ => ?_
    obtain ⟨hadvances', htypes, hnot, hnodup, hsound'⟩ := h₂
    refine ⟨hadvances.trans hadvances', ?_, ?_, ?_, hsound'⟩
    · simp only [List.map_cons, List.mem_cons, forall_eq_or_imp]
      exact ⟨Nat.lt_of_lt_of_le hid hadvances'.size, htypes⟩
    · simp only [List.mem_cons, forall_eq_or_imp]
      exact ⟨by simpa using hseen, fun other hother hmem =>
        hnot other hother (List.mem_cons_of_mem _ hmem)⟩
    · simp only [List.map_cons, List.nodup_cons, List.mem_map, not_exists, not_and]
      exact ⟨fun other hother heq => hnot other hother (heq ▸ List.mem_cons_self), hnodup⟩

/-- The type of a definition is described by it and prepared for any place. -/
theorem describe_outcome (hnames : ∀ entry ∈ names, entry.2 < definitions.length)
    (h : s.Sound definitions allowed filled) {d : Definition}
    (hcounts : ∀ count ∈ d.counts, allowed count) (id : Nat) :
    Outcome (fun r => s.Advances r.2 ∧ d.Describes r.1 ∧
        Prepared r.2.instantiations.toList definitions.length r.2.model.size id r.1 ∧
        r.2.Sound definitions allowed filled) (fun _ => True)
      ((describe names d).run s) := by
  cases d with
  | enum e =>
    simp only [describe]
    split
    · trivial
    · exact ⟨.refl s, rfl, trivial, h⟩
  | complex c =>
    simp only [Definition.counts, List.mem_append] at hcounts
    -- What is left to do when the base is resolved.
    have hrest {base : Option TypeId} {s₁ : Loading} (hadvances : s.Advances s₁)
        (hbase : ∀ b : Nat, base = some b → b < s₁.model.size)
        (hsound : s₁.Sound definitions allowed filled) :
        Outcome (fun r => s.Advances r.2 ∧ (Definition.complex c).Describes r.1 ∧
            Prepared r.2.instantiations.toList definitions.length r.2.model.size id r.1 ∧
            r.2.Sound definitions allowed filled) (fun _ => True)
          ((do
            let members ← resolveMembers names (Definition.complex c).qualifiedName [] c.members
            pure (Descriptor.complex ⟨c.name, c.space, c.typeParams, base, members⟩)).run s₁) := by
      refine (resolveMembers_outcome hnames hsound fun n hn => hcounts n (.inr hn)).run_bind
        fun members s₂ h₂ => ?_
      obtain ⟨hadvances', htypes, -, hnodup, hsound'⟩ := h₂
      refine ⟨hadvances.trans hadvances', ⟨rfl, rfl, rfl⟩, ⟨?_, htypes, hnodup⟩, hsound'⟩
      exact fun b hb => Nat.lt_of_lt_of_le (hbase b hb) hadvances'.size
    simp only [describe]
    cases hc : c.base with
    | none => exact hrest (.refl s) (by simp) h
    | some e =>
      have hbase : Outcome (fun r => s.Advances r.2 ∧
            (∀ b : Nat, r.1 = some b → b < r.2.model.size) ∧
            r.2.Sound definitions allowed filled) (fun _ => True)
          ((some <$> resolve names (Definition.complex c).qualifiedName e).run s) := by
        rw [StateT.run_map]
        refine (resolve_outcome hnames e h fun n hn => hcounts n (.inl ?_)).map fun r hr => ?_
        · simpa [hc] using hn
        · exact ⟨hr.1, fun b hb => Option.some.inj hb ▸ hr.2.1, hr.2.2⟩
      refine hbase.run_bind fun b s₁ h₁ => ?_
      obtain ⟨hadvances, hb, hsound⟩ := h₁
      exact hrest hadvances hb hsound

/-- Defining a reserved slot. -/
theorem Loading.Sound.define (h : s.Sound definitions allowed filled) {d : Definition}
    (hd : definitions[filled]? = some d) {type : Descriptor} (hdescribes : d.Describes type)
    (hprepared : Prepared s.instantiations.toList definitions.length s.model.size filled type) :
    ∃ model, s.model.define filled type = .ok model ∧ s.Advances { s with model := model } ∧
      Loading.Sound definitions allowed (filled + 1) { s with model := model } := by
  have hlt : filled < definitions.length := (List.getElem?_eq_some_iff.mp hd).1
  have hslot := h.empty filled (Nat.le_refl _) hlt
  have hsize : filled < s.model.slots.size := Nat.lt_of_lt_of_le hlt h.size
  obtain ⟨model, hmodel⟩ : ∃ model : Arena,
      model = ⟨s.model.slots.setIfInBounds filled (some type)⟩ := ⟨_, rfl⟩
  have hdefine : s.model.define filled type = .ok model := by
    simp only [Arena.define, hslot, hmodel]
  have hadvances : s.Advances { s with model := model } :=
    ⟨by simp [hmodel, Arena.size], List.Subset.refl _⟩
  have hother (i : Nat) (hi : filled ≠ i) : model.slots[i]? = s.model.slots[i]? := by
    rw [hmodel, Array.getElem?_setIfInBounds_ne hi]
  refine ⟨model, hdefine, hadvances, Nat.le_trans h.size hadvances.size, ?_, ?_, ?_, h.allowed⟩
  · intro i hi hcount
    rw [← h.empty i (by omega) hcount]
    exact hother i (by omega)
  · intro i e he hi
    by_cases heq : filled = i
    · subst heq
      rw [hd] at he
      cases he
      refine ⟨type, ?_, hdescribes, hprepared.advances hadvances⟩
      rw [hmodel]
      exact Array.getElem?_setIfInBounds_self_of_lt hsize
    · obtain ⟨type', htype', hdescribes', hprepared'⟩ := h.defined i e he (by omega)
      exact ⟨type', (hother i heq).trans htype', hdescribes', hprepared'.advances hadvances⟩
  · intro i hcount hi
    have hold : i < s.model.size := by simpa [hmodel, Arena.size] using hi
    obtain ⟨type', htype', hnone, hprepared'⟩ := h.parts i hcount hold
    exact ⟨type', (hother i (by omega)).trans htype', hnone, hprepared'.advances hadvances⟩

/-- Defining the slots of the definitions one after the other. -/
theorem defineAll_outcome (hnames : ∀ entry ∈ names, entry.2 < definitions.length)
    (h : s.Sound definitions allowed filled) {rest : List Definition}
    (hrest : definitions.drop filled = rest)
    (hcounts : ∀ d ∈ definitions, ∀ count ∈ d.counts, allowed count) :
    Outcome (fun r => r.2.Sound definitions allowed definitions.length) (fun _ => True)
      ((defineAll names filled rest).run s) := by
  induction rest generalizing filled s with
  | nil =>
    have hfilled : definitions.length ≤ filled := List.drop_eq_nil_iff.mp hrest
    refine { h with empty := fun i hi hlt => absurd hlt (Nat.not_lt.mpr hi), defined := ?_ }
    exact fun i d hd hi => h.defined i d hd (Nat.lt_of_lt_of_le hi hfilled)
  | cons d rest ih =>
    have hd : definitions[filled]? = some d := by
      have hget : (definitions.drop filled)[0]? = definitions[filled + 0]? := List.getElem?_drop
      rw [hrest] at hget
      simpa using hget.symm
    have hrest' : definitions.drop (filled + 1) = rest := by
      rw [← List.tail_drop, hrest, List.tail_cons]
    rw [defineAll]
    refine (describe_outcome hnames h (hcounts d (List.mem_of_getElem? hd)) filled).run_bind
      fun type s₁ h₁ => ?_
    obtain ⟨-, hdescribes, hprepared, hsound⟩ := h₁
    obtain ⟨model, hdefine, -, hsound'⟩ := hsound.define hd hdescribes hprepared
    have hnext := ih hsound' hrest'
    simp only [StateT.run_bind, StateT.run_get, pure_bind, hdefine]
    exact hnext

end Expressions

end Declgen.Document
