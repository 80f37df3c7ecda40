import Declgen.Proofs.Document.Faithful
import Declgen.Proofs.Follows

/-!
# Documents that repeat nullability

An expression for a type that may be null can say so once more. Where a document loads, it also
loads with such repetitions, and definitions and roots keep their numbers.
-/

namespace Declgen.Document

open Model

/-- The second expression is the first one, but types that may be null say so once more or several
times more, as many of them as one likes. Outside of the arguments of generic expressions this needs
`here`, within them it needs `inside`. -/
inductive TypeExpr.Doubled (inside : Bool) : Bool → TypeExpr → TypeExpr → Prop
  /-- The same primitive type. -/
  | primitive {here : Bool} (kind : Primitive) :
    Doubled inside here (.primitive kind) (.primitive kind)
  /-- The same definition. -/
  | ref {here : Bool} (name : String) : Doubled inside here (.ref name) (.ref name)
  /-- The same type parameter. -/
  | parameter {here : Bool} (name : String) :
    Doubled inside here (.parameter name) (.parameter name)
  /-- A type that may be null, with repetitions within it. -/
  | nullable {here : Bool} {e e' : TypeExpr} (h : Doubled inside here e e') :
    Doubled inside here (.nullable e) (.nullable e')
  /-- One more repetition. -/
  | double {e e' : TypeExpr} (h : Doubled inside true (.nullable e) (.nullable e')) :
    Doubled inside true (.nullable e) (.nullable (.nullable e'))
  /-- A list. -/
  | array {here : Bool} {e e' : TypeExpr} (h : Doubled inside here e e') :
    Doubled inside here (.array e) (.array e')
  /-- A map. -/
  | dictionary {here : Bool} {key key' value value' : TypeExpr}
    (hkey : Doubled inside here key key') (hvalue : Doubled inside here value value') :
    Doubled inside here (.dictionary key value) (.dictionary key' value')
  /-- The same definition, with repetitions in its arguments. -/
  | generic {here : Bool} (definition : String) {arguments arguments' : List TypeExpr}
    (hlength : arguments.length = arguments'.length)
    (harguments : ∀ e e', (e, e') ∈ arguments.zip arguments' → Doubled inside inside e e') :
    Doubled inside here (.generic definition arguments) (.generic definition arguments')

/-- The second member is the first one with repetitions in its type. -/
structure MemberDef.Doubled (inside : Bool) (m m' : MemberDef) : Prop where
  /-- The name is kept. -/
  name : m.name = m'.name
  /-- The type may repeat nullability. -/
  type : m.type.Doubled inside true m'.type
  /-- Whether it may be left out is kept. -/
  optional : m.optional = m'.optional
  /-- Whether it may be null is kept. -/
  nullable : m.nullable = m'.nullable
  /-- The documentation is kept. -/
  doc : m.doc = m'.doc

/-- The second record is the first one with repetitions in the types of its base and its members. -/
structure ComplexDef.Doubled (inside : Bool) (c c' : ComplexDef) : Prop where
  /-- The name is kept. -/
  name : c.name = c'.name
  /-- The namespace is kept. -/
  space : c.space = c'.space
  /-- The type parameters are kept. -/
  typeParams : c.typeParams = c'.typeParams
  /-- The base may repeat nullability. -/
  base : Option.Rel (TypeExpr.Doubled inside true) c.base c'.base
  /-- So may the members. -/
  members : List.Forall₂ (MemberDef.Doubled inside) c.members c'.members

/-- The second definition is the first one with repetitions. -/
inductive Definition.Doubled (inside : Bool) : Definition → Definition → Prop
  /-- A record. -/
  | complex {c c' : ComplexDef} (h : c.Doubled inside c') :
    Doubled inside (.complex c) (.complex c')
  /-- An enumeration. -/
  | enum (e : EnumType) : Doubled inside (.enum e) (.enum e)

/-- The second document is the first one with repetitions. -/
structure ModelDocument.Doubled (inside : Bool) (d d' : ModelDocument) : Prop where
  /-- The roots are kept. -/
  roots : d.roots = d'.roots
  /-- Any definition may have repetitions. -/
  definitions : List.Forall₂ (Definition.Doubled inside) d.definitions d'.definitions

variable {inside here : Bool}

/-! ### Nothing is repeated -/

mutual

/-- An expression is itself without repetitions. -/
theorem TypeExpr.Doubled.refl : ∀ (e : TypeExpr) (here : Bool), e.Doubled inside here e
  | .primitive kind, _ => .primitive kind
  | .ref name, _ => .ref name
  | .parameter name, _ => .parameter name
  | .nullable e, here => .nullable (refl e here)
  | .array e, here => .array (refl e here)
  | .dictionary e e', here => .dictionary (refl e here) (refl e' here)
  | .generic definition es, _ => .generic definition rfl (refl_zip es)

/-- So are the arguments of a generic expression. -/
theorem TypeExpr.Doubled.refl_zip : ∀ (es : List TypeExpr) (e e' : TypeExpr),
    (e, e') ∈ es.zip es → e.Doubled inside inside e'
  | [], _, _, h => by cases h
  | e :: es, a, b, h => by
    rcases List.mem_cons.mp h with h | h
    · cases h
      exact refl e inside
    · exact refl_zip es a b h

end

/-- A member is itself without repetitions. -/
theorem MemberDef.Doubled.refl (m : MemberDef) : m.Doubled inside m :=
  ⟨rfl, .refl _ _, rfl, rfl, rfl⟩

/-- A definition is itself without repetitions. -/
theorem Definition.Doubled.refl (d : Definition) : d.Doubled inside d := by
  cases d with
  | enum e => exact .enum e
  | complex c =>
    refine .complex ⟨rfl, rfl, rfl, ?_, List.forall₂_same.mpr fun m _ => .refl m⟩
    cases c.base with
    | none => exact .none
    | some e => exact .some (.refl e true)

/-! ### Names -/

/-- Repetitions do not change the name of a definition. -/
theorem Definition.Doubled.qualifiedName_eq {d d' : Definition} (h : d.Doubled inside d') :
    d.qualifiedName = d'.qualifiedName := by
  cases h with
  | enum e => rfl
  | complex h => rw [qualifiedName, qualifiedName, h.name, h.space]

/-- The definitions keep their names. -/
theorem qualifiedNames_eq {definitions definitions' : List Definition}
    (h : List.Forall₂ (Definition.Doubled inside) definitions definitions') :
    definitions.map Definition.qualifiedName = definitions'.map Definition.qualifiedName :=
  map_eq_map_of_forall₂ (h.imp fun _ _ hd => hd.qualifiedName_eq)

/-- Slots are reserved by names alone. -/
theorem reserveAll_eq {definitions definitions' : List Definition}
    (h : List.Forall₂ (Definition.Doubled inside) definitions definitions') (model : Arena)
    (names : List (String × TypeId)) :
    reserveAll definitions model names = reserveAll definitions' model names := by
  induction h generalizing model names with
  | nil => rfl
  | cons head _ ih =>
    rw [reserveAll, reserveAll, head.qualifiedName_eq]
    dsimp only
    rw [ih]

/-! ### Two loaders side by side -/

section Loaders

variable {names : List (String × TypeId)} {owner : String} {s s' : Loading}

/-- Two results of loading have noted the same instantiations. -/
def SameNotes {α : Type} (r r' : α × Loading) : Prop := r.2.instantiations = r'.2.instantiations

/-- Adding types notes no instantiations. -/
theorem addType_follows (d d' : Descriptor) (hs : s.instantiations = s'.instantiations) :
    Follows SameNotes ((addType d).run s) ((addType d').run s') := by
  intro r hr
  cases hr
  exact ⟨_, rfl, hs⟩

/-- Where several expressions can be resolved, so can the others, with as many results. -/
theorem resolveList_follows {es es' : List TypeExpr}
    (h : List.Forall₂ (fun e e' => ∀ s s' : Loading, s.instantiations = s'.instantiations →
      Follows SameNotes ((resolve names owner e).run s) ((resolve names owner e').run s')) es es')
    (hs : s.instantiations = s'.instantiations) :
    Follows (fun r r' => SameNotes r r' ∧ r.1.length = r'.1.length)
      ((resolveList names owner es).run s) ((resolveList names owner es').run s') := by
  induction h generalizing s s' with
  | nil => exact .pure ⟨hs, rfl⟩
  | cons head _ ih =>
    rw [resolveList, resolveList]
    refine (head s s' hs).run_bind fun id s₁ id' s₁' h₁ => ?_
    refine (ih h₁).run_bind fun ids s₂ ids' s₂' h₂ => ?_
    obtain ⟨hnotes, hlength⟩ := h₂
    exact .pure ⟨hnotes, congrArg (· + 1) hlength⟩

/-- Where an expression can be resolved, so can it be with repetitions. -/
theorem resolve_follows {e e' : TypeExpr} (h : e.Doubled inside here e')
    (hs : s.instantiations = s'.instantiations) :
    Follows SameNotes ((resolve names owner e).run s) ((resolve names owner e').run s') := by
  induction h generalizing s s' with
  | primitive kind => exact addType_follows _ _ hs
  | parameter name => exact addType_follows _ _ hs
  | ref name =>
    rw [resolve]
    cases lookup names owner name with
    | ok id => exact .pure hs
    | error e => exact .error e _
  | nullable _ ih =>
    rw [resolve, resolve]
    exact (ih hs).run_bind fun id s₁ id' s₁' h₁ => addType_follows _ _ h₁
  | double _ ih =>
    intro r hr
    obtain ⟨⟨id', s₁'⟩, hrun, hnotes⟩ := ih hs r hr
    obtain ⟨b, hb, hnotes'⟩ := addType_follows (.nullable id') (.nullable id') hnotes _ rfl
    refine ⟨b, ?_, hnotes'⟩
    rw [resolve, run_bind_eq hrun]
    exact hb
  | array _ ih =>
    rw [resolve, resolve]
    exact (ih hs).run_bind fun id s₁ id' s₁' h₁ => addType_follows _ _ h₁
  | dictionary _ _ ihkey ihvalue =>
    rw [resolve, resolve]
    refine (ihkey hs).run_bind fun key s₁ key' s₁' h₁ => ?_
    exact (ihvalue h₁).run_bind fun value s₂ value' s₂' h₂ => addType_follows _ _ h₂
  | generic definition hlength _ ih =>
    rw [resolve, resolve]
    cases lookup names owner definition with
    | error e => exact .error e _
    | ok id =>
      rw [lift_ok_bind, lift_ok_bind]
      refine (resolveList_follows (List.forall₂_iff_zip.mpr ⟨hlength, fun {_ _} hmem _ _ hs =>
        ih _ _ hmem hs⟩) hs).run_bind fun ids s₁ ids' s₁' h₁ => ?_
      obtain ⟨hnotes, hcount⟩ := h₁
      refine addType_follows _ _ ?_
      rw [hcount]
      exact congrArg (·.push (id, ids'.length)) hnotes

/-- Where the members of a record can be resolved, so can they be with repetitions. -/
theorem resolveMembers_follows {members members' : List MemberDef}
    (h : List.Forall₂ (MemberDef.Doubled inside) members members') (seen : List String)
    (hs : s.instantiations = s'.instantiations) :
    Follows SameNotes ((resolveMembers names owner seen members).run s)
      ((resolveMembers names owner seen members').run s') := by
  induction h generalizing seen s s' with
  | nil => exact .pure hs
  | cons head _ ih =>
    rw [resolveMembers, resolveMembers, head.name]
    split
    · exact .error _ _
    · refine (resolve_follows head.type hs).run_bind fun id s₁ id' s₁' h₁ => ?_
      exact (ih _ h₁).run_bind fun rest s₂ rest' s₂' h₂ => .pure h₂

/-- Where a definition can be described, so can it be with repetitions. -/
theorem describe_follows {d d' : Definition} (h : d.Doubled inside d')
    (hs : s.instantiations = s'.instantiations) :
    Follows SameNotes ((describe names d).run s) ((describe names d').run s') := by
  have howner := h.qualifiedName_eq
  cases h with
  | enum e =>
    unfold describe
    dsimp only
    split
    · exact .error _ _
    · exact .pure hs
  | @complex c c' h =>
    -- What is left to do when the base is resolved.
    have hrest (base base' : Option TypeId) {s s' : Loading}
        (hs : s.instantiations = s'.instantiations) :
        Follows SameNotes
          ((do
            let members ← resolveMembers names (Definition.complex c').qualifiedName [] c.members
            pure (Descriptor.complex ⟨c.name, c.space, c.typeParams, base, members⟩)).run s)
          ((do
            let members ← resolveMembers names (Definition.complex c').qualifiedName [] c'.members
            pure (Descriptor.complex ⟨c'.name, c'.space, c'.typeParams, base', members⟩)).run s') :=
      by
      exact (resolveMembers_follows h.members [] hs).run_bind fun _ _ _ _ h₂ => .pure h₂
    have hbase := h.base
    rw [describe, describe, howner]
    generalize c.base = base, c'.base = base' at hbase
    cases hbase with
    | none => exact hrest none none hs
    | some he =>
      dsimp only
      rw [bind_map_left, bind_map_left]
      exact (resolve_follows he hs).run_bind fun id s₁ id' s₁' h₁ => hrest (some id) (some id') h₁

/-- Where the definitions that are left can be defined, so can they be with repetitions. -/
theorem defineAll_follows {rest rest' definitions' : List Definition} {filled : Nat}
    (h : List.Forall₂ (Definition.Doubled inside) rest rest')
    (hs : s.instantiations = s'.instantiations)
    (hnames : ∀ entry ∈ names, entry.2 < definitions'.length)
    (hsound : s'.Sound definitions' (fun _ => True) filled)
    (hrest : definitions'.drop filled = rest') :
    Follows SameNotes ((defineAll names filled rest).run s)
      ((defineAll names filled rest').run s') := by
  induction h generalizing filled s s' with
  | nil => exact .pure hs
  | @cons d d' rest rest' head _ ih =>
    have hd : definitions'[filled]? = some d' := by
      have hget : (definitions'.drop filled)[0]? = definitions'[filled + 0]? := List.getElem?_drop
      rw [hrest] at hget
      simpa using hget.symm
    have hrest' : definitions'.drop (filled + 1) = rest' := by
      rw [← List.tail_drop, hrest, List.tail_cons]
    -- The slot of the definition is still reserved in the second model, too.
    have hdescribe : Follows (fun r r' => SameNotes r r' ∧
          ∃ model, r'.2.model.define filled r'.1 = .ok model ∧
            Loading.Sound definitions' (fun _ => True) (filled + 1) { r'.2 with model := model })
        ((describe names d).run s) ((describe names d').run s') := by
      intro r hr
      obtain ⟨r', hr', hnotes⟩ := describe_follows head hs r hr
      obtain ⟨-, hdescribes, hprepared, hsound₁⟩ :=
        (describe_outcome hnames hsound (fun _ _ => trivial) filled).result hr'
      obtain ⟨model, hdefine, -, hsound₂⟩ := hsound₁.define hd hdescribes hprepared
      exact ⟨r', hr', hnotes, model, hdefine, hsound₂⟩
    rw [defineAll, defineAll]
    refine hdescribe.run_bind fun type s₁ type' s₁' h₁ => ?_
    obtain ⟨hnotes, model', hdefine', hsound'⟩ := h₁
    simp only [StateT.run_bind, StateT.run_get, pure_bind, hdefine']
    cases hdefine : s₁.model.define filled type with
    | error e => exact .error _ _
    | ok model => exact ih hnotes hsound' hrest'

end Loaders

/-! ### Loading -/

/-- A definition has its repetitions at the same place. -/
theorem ModelDocument.Doubled.exists_definition {d d' : ModelDocument} (h : d.Doubled inside d')
    {i : Nat} {definition : Definition} (hi : d.definitions[i]? = some definition) :
    ∃ definition', d'.definitions[i]? = some definition' ∧
      definition.Doubled inside definition' := by
  obtain ⟨hlt, rfl⟩ := List.getElem?_eq_some_iff.mp hi
  have hlt' : i < d'.definitions.length := h.definitions.length_eq ▸ hlt
  exact ⟨_, List.getElem?_eq_getElem hlt', h.definitions.get hlt hlt'⟩

/-- An instantiation that passes the check in the model of a document passes it with repetitions. -/
theorem genericDefinition_outcome {d d' : ModelDocument} (h : d.Doubled inside d')
    {m : LoadedModel} (hm : Loaded d m) {s : Loading}
    (hs : s.Sound d'.definitions (fun _ => True) d'.definitions.length) {definition : TypeId}
    {count : Nat} {c : ComplexType} (hc : m.model.get definition = .ok (.complex c))
    (hcount : c.typeParams.length = count) :
    Outcome (fun _ => True) (fun _ => False)
      ((s.model.genericDefinition definition count).map fun _ => ()) := by
  obtain ⟨e, he, hdescribes⟩ := hm.definition hc rfl
  obtain ⟨e', he', hdoubled⟩ := h.exists_definition he
  obtain ⟨type, htype, hdescribes', -⟩ :=
    hs.defined definition e' he' (List.getElem?_eq_some_iff.mp he').1
  cases hdoubled with
  | enum e => exact hdescribes.elim
  | @complex e e' hdoubled =>
    cases type with
    | complex c' =>
      obtain ⟨-, -, hparams⟩ := hdescribes
      obtain ⟨-, -, hparams'⟩ := hdescribes'
      have hlength : c'.typeParams.length = count := by
        rw [hparams', ← hdoubled.typeParams, ← hparams, hcount]
      rw [Arena.genericDefinition, Arena.get_eq_ok_iff.mpr htype]
      dsimp only
      rw [if_pos hlength]
      trivial
    | _ => exact hdescribes'.elim

/-- Where a document loads, so does it with repetitions. Names and roots keep their numbers. -/
theorem load_follows {d d' : ModelDocument} (h : d.Doubled inside d') :
    Follows (fun m m' => m.names = m'.names ∧ m.roots = m'.roots) (load d) (load d') := by
  intro m hload
  have hm := loaded hload
  unfold load at hload
  obtain ⟨⟨model, names⟩, hreserve, hload⟩ := bind_eq_ok hload
  obtain ⟨⟨_, s⟩, hdefine, hload⟩ := bind_eq_ok hload
  obtain ⟨_, hcheck, hload⟩ := bind_eq_ok hload
  obtain ⟨roots, hroots, hload⟩ := bind_eq_ok hload
  cases hload
  -- The second document starts with the same slots and the same names.
  have hreserve' : reserveAll d'.definitions Arena.empty [] = .ok (model, names) := by
    rw [← reserveAll_eq h.definitions, hreserve]
  obtain ⟨hslots, hnames, hids, -⟩ := (reserveAll_outcome rfl).result hreserve'
  have hlt : ∀ entry ∈ names, (entry.2 : Nat) < d'.definitions.length := by
    intro entry hentry
    have hmem : entry.2 ∈ names.map (·.2) := List.mem_map_of_mem hentry
    rw [hids] at hmem
    simpa [Arena.empty, Arena.size] using hmem
  have hstart : Loading.Sound d'.definitions (fun _ => True) 0 ⟨model, #[]⟩ := sound_reserved hslots
  obtain ⟨⟨_, s'⟩, hdefine', hnotes⟩ :=
    defineAll_follows h.definitions rfl hlt hstart rfl _ hdefine
  have hsound := (defineAll_outcome hlt hstart rfl fun _ _ _ _ => trivial).result hdefine'
  -- The same instantiations are checked, and they fit the same type parameters.
  have hchecked := (Outcome.forM fun note _ => checked_outcome s.model note.1 note.2).result hcheck
  have hcheck' : Outcome (fun _ => ∀ note ∈ s'.instantiations.toList, True) (fun _ => False)
      (s'.instantiations.toList.forM fun note =>
        (s'.model.genericDefinition note.1 note.2).map fun _ => ()) := by
    refine Outcome.forM fun note hnote => ?_
    rw [show s'.instantiations = s.instantiations from hnotes.symm] at hnote
    obtain ⟨c, hc, hcount⟩ := hchecked note hnote
    exact genericDefinition_outcome h hm hsound hc hcount
  obtain ⟨_, hcheck'⟩ := hcheck'.exists_ok
  refine ⟨⟨s'.model, roots, names⟩, ?_, rfl, rfl⟩
  rw [load, hreserve', ok_bind]
  dsimp only
  rw [hdefine', ok_bind]
  dsimp only
  rw [← h.roots]
  refine (congrArg (· >>= _) hcheck').trans ?_
  rw [ok_bind, hroots]
  rfl

end Declgen.Document
