import Declgen.Proofs.Alike.Types
import Declgen.Proofs.Document.Loaded
import Declgen.Proofs.Text.Splitting

/-!
# What a loaded model says

A loaded model says what its document says: every definition has the number of its place, and each
of its types, written out again, is the expression that the document has there. The model is closed:
whatever it refers to is in it, and only records can be part of a circle.
-/

namespace Declgen.Model

/-- All types that a type refers to; those of a record are its base and the types of its members. -/
def Descriptor.links : Descriptor → List TypeId
  | .complex c => c.base.toList ++ c.members.map (·.type)
  | d => d.parts

namespace Arena

variable {a a' a'' : Arena}

/-- Whatever is defined in a model is the same in another one. -/
def Keeps (a a' : Arena) : Prop :=
  ∀ ⦃id : TypeId⦄ ⦃d : Descriptor⦄, a.get id = .ok d → a'.get id = .ok d

/-- A model keeps its own definitions. -/
theorem Keeps.refl (a : Arena) : a.Keeps a := fun _ _ h => h

/-- Definitions that are kept twice are kept. -/
theorem Keeps.trans (h : a.Keeps a') (h' : a'.Keeps a'') : a.Keeps a'' := fun _ _ hd => h' (h hd)

/-- A type that has been added is found under the number that was next. -/
theorem get_add (a : Arena) (d : Descriptor) : (a.add d).1.get a.size = .ok d :=
  get_eq_ok_iff.mpr Array.getElem?_push_size

/-- Adding a type keeps all definitions. -/
theorem keeps_add (a : Arena) (d : Descriptor) : a.Keeps (a.add d).1 := by
  intro id e he
  have hslot := get_eq_ok_iff.mp he
  refine get_eq_ok_iff.mpr ?_
  rw [add, Array.getElem?_push_lt (get_lt he), ← hslot]
  exact (Array.getElem?_eq_getElem (get_lt he)).symm

/-- Defining a slot changes no other slot. -/
theorem define_eq_ok {id : TypeId} {d : Descriptor} (h : a.define id d = .ok a') :
    a'.get id = .ok d ∧ a.Keeps a' := by
  unfold define at h
  split at h
  · cases h
  · cases h
  · rename_i hslot
    cases h
    have hlt := (Array.getElem?_eq_some_iff.mp hslot).1
    refine ⟨get_eq_ok_iff.mpr (Array.getElem?_setIfInBounds_self_of_lt hlt), fun i e he => ?_⟩
    have he' := get_eq_ok_iff.mp he
    refine get_eq_ok_iff.mpr ?_
    by_cases hi : id = i
    · rw [hi, he'] at hslot
      cases hslot
    · rw [Array.getElem?_setIfInBounds_ne hi, he']

/-- A type with a qualified name is among the named types. -/
theorem mem_namedTypes {id : TypeId} {d : Descriptor} {name : String} (hd : a.get id = .ok d)
    (hname : d.qualifiedName? = some name) : id ∈ a.namedTypes := by
  rw [namedTypes, List.mem_filter, List.mem_range, get_eq_ok_iff.mp hd]
  refine ⟨get_lt hd, ?_⟩
  cases d with
  | complex c => rfl
  | enum e => rfl
  | _ => cases hname

/-- The types that are listed are defined and have names. -/
theorem exists_of_mem_namedTypes {id : TypeId} (h : id ∈ a.namedTypes) :
    ∃ d name, a.get id = .ok d ∧ d.qualifiedName? = some name := by
  simp only [namedTypes, List.mem_filter] at h
  obtain ⟨-, h⟩ := h
  split at h
  case h_1 c hslot => exact ⟨_, _, get_eq_ok_iff.mpr hslot, rfl⟩
  case h_2 e hslot => exact ⟨_, _, get_eq_ok_iff.mpr hslot, rfl⟩
  case h_3 => cases h

end Arena

end Declgen.Model

namespace Declgen.Document

open Model

/-- The qualified names of the definitions in order. -/
def ModelDocument.qualifiedNames (d : ModelDocument) : List String :=
  d.definitions.map Definition.qualifiedName

/-- The definition that a name stands for inside the definition named `owner`: the one with this
very name, and if there is none the one with this name behind what `owner` has before its last
dot. -/
def StandsFor (names : List String) (owner name : String) (id : TypeId) : Prop :=
  names[id]? = some name ∨
    name ∉ names ∧ ∃ space last, owner = space ++ "." ++ last ∧ '.' ∉ last.toList ∧
      names[id]? = some (space ++ "." ++ name)

mutual

/-- Whether the type with number `id` is written as an expression inside the definition named
`owner`. -/
def Written (names : List String) (a : Arena) (owner : String) : TypeExpr → TypeId → Prop
  | .primitive kind, id => a.get id = .ok (.primitive kind)
  | .ref name, id => StandsFor names owner name id
  | .nullable e, id => ∃ inner, a.get id = .ok (.nullable inner) ∧ Written names a owner e inner
  | .array e, id => ∃ element, a.get id = .ok (.array element) ∧ Written names a owner e element
  | .dictionary e e', id => ∃ key value, a.get id = .ok (.dictionary key value) ∧
    Written names a owner e key ∧ Written names a owner e' value
  | .parameter name, id => a.get id = .ok (.parameter name)
  | .generic name es, id => ∃ definition arguments,
    a.get id = .ok (.instantiation definition arguments) ∧ StandsFor names owner name definition ∧
      AllWritten names a owner es arguments

/-- Whether types are written as several expressions, one by one. -/
def AllWritten (names : List String) (a : Arena) (owner : String) :
    List TypeExpr → List TypeId → Prop
  | [], [] => True
  | e :: es, id :: ids => Written names a owner e id ∧ AllWritten names a owner es ids
  | _, _ => False

end

/-- A member of a record is the one that its definition has there. -/
structure MemberDef.Carried (names : List String) (a : Arena) (owner : String) (m : MemberDef)
    (m' : Member) : Prop where
  /-- The name is kept. -/
  name : m'.name = m.name
  /-- The type is written as in the definition. -/
  type : Written names a owner m.type m'.type
  /-- Whether it may be left out is kept. -/
  optional : m'.optional = m.optional
  /-- Whether it may be null is kept. -/
  nullable : m'.nullable = m.nullable
  /-- The documentation is kept. -/
  doc : m'.doc = m.doc

/-- A record is the one that is defined. -/
structure ComplexDef.Carried (names : List String) (a : Arena) (c : ComplexDef)
    (c' : ComplexType) : Prop where
  /-- The name is kept. -/
  name : c'.name = c.name
  /-- The namespace is kept. -/
  space : c'.space = c.space
  /-- The type parameters are kept. -/
  typeParams : c'.typeParams = c.typeParams
  /-- The base is written as in the definition. -/
  base : Option.Rel (Written names a (qualify c.space c.name)) c.base c'.base
  /-- The members are kept in order. -/
  members : List.Forall₂ (MemberDef.Carried names a (qualify c.space c.name)) c.members c'.members

/-- A type is the one that is defined. -/
inductive Definition.Carried (names : List String) (a : Arena) : Definition → Descriptor → Prop
  /-- A record. -/
  | complex {c : ComplexDef} {c' : ComplexType} (h : c.Carried names a c') :
    Carried names a (.complex c) (.complex c')
  /-- An enumeration, with its name, its namespace and its members. -/
  | enum (e : EnumType) : Carried names a (.enum e) (.enum e)

/-- What a loaded model has from its document. -/
structure Faithful (d : ModelDocument) (m : LoadedModel) : Prop where
  /-- The definitions have the first numbers, in order. -/
  definitions : ∀ (i : Nat) (definition : Definition), d.definitions[i]? = some definition →
    ∃ type, m.model.get i = .ok type ∧ definition.Carried d.qualifiedNames m.model type
  /-- The table of names lists them in order. -/
  names : m.names = d.qualifiedNames.zipIdx
  /-- The roots are those that the document names. -/
  roots : List.Forall₂ (fun root id => m.names.lookup root = some id) d.roots m.roots
  /-- Every slot is defined. -/
  slots : ∀ id : Nat, id < m.model.size → ∃ type, m.model.get id = .ok type
  /-- So is whatever a type refers to. -/
  links : ∀ (id : TypeId) (type : Descriptor), m.model.get id = .ok type →
    ∀ link ∈ type.links, ∃ type', m.model.get link = .ok type'
  /-- So is whatever a name or a root stands for. -/
  entries : ∀ id ∈ m.names.map (·.2) ++ m.roots, ∃ type, m.model.get id = .ok type
  /-- An instantiation has an argument for each type parameter of a record. -/
  instantiations : ∀ (id definition : TypeId) (arguments : List TypeId),
    m.model.get id = .ok (.instantiation definition arguments) →
      ∃ c, m.model.get definition = .ok (.complex c) ∧ c.typeParams.length = arguments.length
  /-- The types after the definitions refer to definitions and to types before themselves. -/
  earlier : ∀ (id : Nat) (type : Descriptor), d.definitions.length ≤ id →
    m.model.get id = .ok type → ∀ link : Nat, link ∈ type.links →
      link < d.definitions.length ∨ link < id
  /-- There is no circle without a record. -/
  circles : ∀ id : TypeId, ¬ Relation.TransGen (fun link id => ∃ type,
    m.model.get id = .ok type ∧ (∀ c, type ≠ .complex c) ∧ link ∈ type.links) id id
  /-- A name is found in the model exactly as the table of names has it. -/
  find : ∀ name : String, m.model.find name = m.names.lookup name

/-! ### Names -/

section Names

variable {names : List String} {owner name : String} {id : TypeId}

/-- What stands before the last dot of a name is followed by this dot and a rest without dots. -/
theorem eq_of_enclosing {space : String} (h : enclosing name = some space) :
    ∃ last, name = space ++ "." ++ last ∧ '.' ∉ last.toList := by
  obtain ⟨parts, last, hparts⟩ : ∃ parts last, Text.splitAt '.' name = parts ++ [last] :=
    ⟨_, _, (List.dropLast_append_getLast (Text.splitAt_ne_nil name)).symm⟩
  refine ⟨last, ?_, (Text.mem_splitAt (hparts ▸ List.mem_append_right _ List.mem_cons_self)).1⟩
  have hname : name = ".".intercalate (parts ++ [last]) := by
    rw [← hparts]
    exact (Text.intercalate_splitAt name).symm
  rw [enclosing, hparts, List.dropLast_concat] at h
  cases parts with
  | nil => cases h
  | cons first rest =>
    cases h
    rw [hname, String.intercalate_append_of_ne_nil (List.cons_ne_nil _ _) (List.cons_ne_nil _ _),
      String.intercalate_singleton]

/-- A number that has been looked up is the place of the name. -/
theorem getElem?_of_lookup (h : names.zipIdx.lookup name = some id) : names[id]? = some name := by
  obtain ⟨before, after, hnames, -⟩ := List.lookup_eq_some_iff.mp h
  have hmem : (name, id) ∈ names.zipIdx := hnames ▸ List.mem_append_right _ List.mem_cons_self
  exact List.mem_zipIdx_iff_getElem?.mp hmem

/-- If the names are distinct, looking up a name gives its place. -/
theorem lookup_zipIdx_iff (hnames : names.Nodup) :
    names.zipIdx.lookup name = some id ↔ names[id]? = some name := by
  refine ⟨getElem?_of_lookup, fun h => Walk.lookup_of_mem ?_ (List.mem_zipIdx_iff_getElem?.mpr h)⟩
  simpa using hnames

/-- Looking a name up gives the definition that it stands for. -/
theorem standsFor_of_lookup (h : lookup names.zipIdx owner name = .ok id) :
    StandsFor names owner name id := by
  unfold lookup at h
  dsimp only at h
  split at h
  · rename_i id' hid
    cases h
    rcases Option.or_eq_some_iff.mp hid with hid | ⟨hnone, hid⟩
    · exact .inl (getElem?_of_lookup hid)
    · obtain ⟨space, hspace, hid⟩ := Option.bind_eq_some_iff.mp hid
      obtain ⟨last, howner, hlast⟩ := eq_of_enclosing hspace
      refine .inr ⟨fun hmem => ?_, space, last, howner, hlast, getElem?_of_lookup hid⟩
      obtain ⟨i, hi⟩ := List.mem_iff_getElem?.mp hmem
      have hne := List.lookup_eq_none_iff.mp hnone (name, i) (List.mem_zipIdx_iff_getElem?.mpr hi)
      simp at hne
  · cases h

/-- A name stands for one definition, where definitions have different names. -/
theorem StandsFor.unique (hnames : names.Nodup) {id' : TypeId} (h : StandsFor names owner name id)
    (h' : StandsFor names owner name id') : id = id' := by
  have hsame {other : String} (hid : names[id]? = some other) (hid' : names[id']? = some other) :
      id = id' :=
    (List.getElem?_inj (List.getElem?_eq_some_iff.mp hid).1 hnames).mp (hid.trans hid'.symm)
  rcases h with hid | ⟨hnot, space, last, howner, hlast, hid⟩
  · rcases h' with hid' | ⟨hnot, -⟩
    · exact hsame hid hid'
    · exact absurd (List.mem_of_getElem? hid) hnot
  · rcases h' with hid' | ⟨-, space', last', howner', hlast', hid'⟩
    · exact absurd (List.mem_of_getElem? hid') hnot
    · -- The owner is split at its last dot in both cases.
      have hparts : Text.splitAt '.' space ++ [last] = Text.splitAt '.' space' ++ [last'] := by
        rw [← Text.splitAt_of_notMem hlast, ← Text.splitAt_of_notMem hlast', ← Text.splitAt_append,
          ← Text.splitAt_append]
        exact congrArg _ (howner.symm.trans howner')
      have hspaces := congrArg ".".intercalate (List.append_inj_left' hparts rfl)
      have hspace : space = space' := calc
        space = ".".intercalate (Text.splitAt '.' space) := (Text.intercalate_splitAt space).symm
        _ = ".".intercalate (Text.splitAt '.' space') := hspaces
        _ = space' := Text.intercalate_splitAt space'
      rw [hspace] at hid
      exact hsame hid hid'

end Names

/-! ### Expressions -/

section Expressions

variable {names : List String} {a a' : Arena} {owner : String}

mutual

/-- A type is written the same when more types are defined. -/
theorem Written.keeps (h : a.Keeps a') : ∀ {e : TypeExpr} {id : TypeId},
    Written names a owner e id → Written names a' owner e id
  | .primitive _, _, hid => h hid
  | .ref _, _, hid => hid
  | .parameter _, _, hid => h hid
  | .nullable _, _, ⟨inner, hid, he⟩ => ⟨inner, h hid, he.keeps h⟩
  | .array _, _, ⟨element, hid, he⟩ => ⟨element, h hid, he.keeps h⟩
  | .dictionary _ _, _, ⟨key, value, hid, he, he'⟩ =>
    ⟨key, value, h hid, he.keeps h, he'.keeps h⟩
  | .generic _ _, _, ⟨definition, arguments, hid, hname, hes⟩ =>
    ⟨definition, arguments, h hid, hname, hes.keeps h⟩

/-- Types are written the same when more types are defined. -/
theorem AllWritten.keeps (h : a.Keeps a') : ∀ {es : List TypeExpr} {ids : List TypeId},
    AllWritten names a owner es ids → AllWritten names a' owner es ids
  | [], [], _ => trivial
  | _ :: _, _ :: _, ⟨he, hes⟩ => ⟨he.keeps h, hes.keeps h⟩

end

/-- So is a base. -/
theorem keeps_base (h : a.Keeps a') {base : Option TypeExpr} {base' : Option TypeId}
    (hbase : Option.Rel (Written names a owner) base base') :
    Option.Rel (Written names a' owner) base base' := by
  cases hbase with
  | some hbase => exact .some (hbase.keeps h)
  | none => exact .none

/-- A member is carried the same when more types are defined. -/
theorem MemberDef.Carried.keeps (h : a.Keeps a') {m : MemberDef} {m' : Member}
    (hm : m.Carried names a owner m') : m.Carried names a' owner m' :=
  ⟨hm.name, hm.type.keeps h, hm.optional, hm.nullable, hm.doc⟩

/-- A definition is carried the same when more types are defined. -/
theorem Definition.Carried.keeps (h : a.Keeps a') {d : Definition} {type : Descriptor}
    (hd : d.Carried names a type) : d.Carried names a' type := by
  cases hd with
  | enum e => exact .enum e
  | complex hc =>
    exact .complex { hc with
      base := keeps_base h hc.base
      members := hc.members.imp fun _ _ hm => hm.keeps h }

end Expressions

/-! ### Loading -/

section Loading

variable {names : List String} {owner : String} {s : Loading}

/-- Adding a type keeps what is defined, and the new type is defined. -/
theorem addType_outcome {d : Descriptor} {bad : ModelError → Prop} :
    Outcome (fun r => s.model.Keeps r.2.model ∧ r.2.model.get r.1 = .ok d) bad
      ((addType d).run s) :=
  ⟨s.model.keeps_add d, s.model.get_add d⟩

/-- A name that has been looked up stands for the type that was found. -/
theorem lookup_standsFor (name : String) :
    Outcome (StandsFor names owner name) (fun _ => True) (lookup names.zipIdx owner name) := by
  cases h : lookup names.zipIdx owner name with
  | ok id => exact standsFor_of_lookup h
  | error e => trivial

mutual

/-- Resolving an expression gives a type that is written as the expression. -/
theorem resolve_written : ∀ (e : TypeExpr) {s : Loading},
    Outcome (fun r => s.model.Keeps r.2.model ∧ Written names r.2.model owner e r.1)
      (fun _ => True) ((resolve names.zipIdx owner e).run s)
  | .primitive kind, s => addType_outcome (d := .primitive kind)
  | .parameter name, s => addType_outcome (d := .parameter name)
  | .ref name, s => by
    rw [resolve]
    cases hname : lookup names.zipIdx owner name with
    | ok id => exact ⟨Arena.Keeps.refl _, standsFor_of_lookup hname⟩
    | error e => trivial
  | .nullable e, s => by
    refine (resolve_written e).run_bind fun id s₁ h => ?_
    obtain ⟨hkeeps, he⟩ := h
    refine (addType_outcome (d := .nullable id)).weaken fun r h => ?_
    obtain ⟨hkeeps', hget⟩ := h
    exact ⟨hkeeps.trans hkeeps', id, hget, he.keeps hkeeps'⟩
  | .array e, s => by
    refine (resolve_written e).run_bind fun id s₁ h => ?_
    obtain ⟨hkeeps, he⟩ := h
    refine (addType_outcome (d := .array id)).weaken fun r h => ?_
    obtain ⟨hkeeps', hget⟩ := h
    exact ⟨hkeeps.trans hkeeps', id, hget, he.keeps hkeeps'⟩
  | .dictionary e e', s => by
    refine (resolve_written e).run_bind fun key s₁ h => ?_
    obtain ⟨hkeeps, he⟩ := h
    refine (resolve_written e').run_bind fun value s₂ h => ?_
    obtain ⟨hkeeps', he'⟩ := h
    refine (addType_outcome (d := .dictionary key value)).weaken fun r h => ?_
    obtain ⟨hkeeps'', hget⟩ := h
    exact ⟨hkeeps.trans (hkeeps'.trans hkeeps''), key, value, hget,
      he.keeps (hkeeps'.trans hkeeps''), he'.keeps hkeeps''⟩
  | .generic name es, s => by
    refine (lookup_standsFor name).lift_bind fun id hid => ?_
    refine (resolveList_written es).run_bind fun ids s₁ h => ?_
    obtain ⟨hkeeps, hes⟩ := h
    refine (addType_outcome (d := .instantiation id ids)
      (s := { s₁ with instantiations := s₁.instantiations.push (id, ids.length) })).weaken
        fun r h => ?_
    obtain ⟨hkeeps', hget⟩ := h
    exact ⟨hkeeps.trans hkeeps', id, ids, hget, hid, hes.keeps hkeeps'⟩

/-- So do several expressions. -/
theorem resolveList_written : ∀ (es : List TypeExpr) {s : Loading},
    Outcome (fun r => s.model.Keeps r.2.model ∧ AllWritten names r.2.model owner es r.1)
      (fun _ => True) ((resolveList names.zipIdx owner es).run s)
  | [], s => ⟨Arena.Keeps.refl _, trivial⟩
  | e :: es, s => by
    refine (resolve_written e).run_bind fun id s₁ h => ?_
    obtain ⟨hkeeps, he⟩ := h
    refine (resolveList_written es).run_bind fun ids s₂ h => ?_
    obtain ⟨hkeeps', hes⟩ := h
    exact ⟨hkeeps.trans hkeeps', he.keeps hkeeps', hes⟩

end

/-- The members of a record are those of its definition. -/
theorem resolveMembers_carried {seen : List String} {members : List MemberDef} :
    Outcome (fun r => s.model.Keeps r.2.model ∧
        List.Forall₂ (MemberDef.Carried names r.2.model owner) members r.1) (fun _ => True)
      ((resolveMembers names.zipIdx owner seen members).run s) := by
  induction members generalizing seen s with
  | nil => exact ⟨Arena.Keeps.refl _, .nil⟩
  | cons m members ih =>
    rw [resolveMembers]
    by_cases hseen : seen.contains m.name = true
    · rw [if_pos hseen]
      trivial
    rw [if_neg hseen]
    refine (resolve_written m.type).run_bind fun id s₁ h => ?_
    obtain ⟨hkeeps, htype⟩ := h
    refine ih.run_bind fun rest s₂ h => ?_
    obtain ⟨hkeeps', hrest⟩ := h
    exact ⟨hkeeps.trans hkeeps', .cons ⟨rfl, htype.keeps hkeeps', rfl, rfl, rfl⟩ hrest⟩

/-- The type of a definition is the one that is defined. -/
theorem describe_carried (d : Definition) :
    Outcome (fun r => s.model.Keeps r.2.model ∧ d.Carried names r.2.model r.1) (fun _ => True)
      ((describe names.zipIdx d).run s) := by
  cases d with
  | enum e =>
    simp only [describe]
    split
    · trivial
    · exact ⟨Arena.Keeps.refl _, .enum e⟩
  | complex c =>
    -- What is left to do when the base is resolved.
    have hrest {base : Option TypeId} {s₁ : Loading} (hkeeps : s.model.Keeps s₁.model)
        (hbase : Option.Rel (Written names s₁.model (qualify c.space c.name)) c.base base) :
        Outcome (fun r => s.model.Keeps r.2.model ∧
            (Definition.complex c).Carried names r.2.model r.1) (fun _ => True)
          ((do
            let members ← resolveMembers names.zipIdx (qualify c.space c.name) [] c.members
            pure (Descriptor.complex ⟨c.name, c.space, c.typeParams, base, members⟩)).run s₁) := by
      refine resolveMembers_carried.run_bind fun members s₂ h => ?_
      obtain ⟨hkeeps', hmembers⟩ := h
      exact ⟨hkeeps.trans hkeeps', .complex ⟨rfl, rfl, rfl, keeps_base hkeeps' hbase, hmembers⟩⟩
    simp only [describe]
    cases hc : c.base with
    | none => exact hrest (Arena.Keeps.refl _) (hc ▸ .none)
    | some e =>
      have hbase : Outcome (fun r => s.model.Keeps r.2.model ∧
            Option.Rel (Written names r.2.model (qualify c.space c.name)) c.base r.1)
          (fun _ => True)
          ((some <$> resolve names.zipIdx (qualify c.space c.name) e).run s) := by
        rw [StateT.run_map]
        exact (resolve_written e).map fun r hr => ⟨hr.1, hc ▸ .some hr.2⟩
      exact hbase.run_bind fun b s₁ h => hrest h.1 h.2

/-- Defining the slots of the definitions one after the other gives each of them its type. -/
theorem defineAll_carried {definitions rest : List Definition} {filled : Nat}
    (hrest : definitions.drop filled = rest)
    (hfilled : ∀ (i : Nat) (d : Definition), i < filled → definitions[i]? = some d →
      ∃ type, s.model.get i = .ok type ∧ d.Carried names s.model type) :
    Outcome (fun r => ∀ (i : Nat) (d : Definition), definitions[i]? = some d →
        ∃ type, r.2.model.get i = .ok type ∧ d.Carried names r.2.model type) (fun _ => True)
      ((defineAll names.zipIdx filled rest).run s) := by
  induction rest generalizing filled s with
  | nil =>
    have hlength : definitions.length ≤ filled := List.drop_eq_nil_iff.mp hrest
    refine fun i d hd => hfilled i d ?_ hd
    exact Nat.lt_of_lt_of_le (List.getElem?_eq_some_iff.mp hd).1 hlength
  | cons d rest ih =>
    have hd : definitions[filled]? = some d := by
      have hget : (definitions.drop filled)[0]? = definitions[filled + 0]? := List.getElem?_drop
      rw [hrest] at hget
      simpa using hget.symm
    have hrest' : definitions.drop (filled + 1) = rest := by
      rw [← List.tail_drop, hrest, List.tail_cons]
    rw [defineAll]
    refine (describe_carried d).run_bind fun type s₁ h => ?_
    obtain ⟨hkeeps, hcarried⟩ := h
    simp only [StateT.run_bind, StateT.run_get, pure_bind]
    cases hdefine : s₁.model.define filled type with
    | error e => trivial
    | ok model =>
      obtain ⟨hget, hkeeps'⟩ := Arena.define_eq_ok hdefine
      refine ih (s := { s₁ with model := model }) hrest' fun i e hi he => ?_
      rcases Nat.lt_succ_iff_lt_or_eq.mp hi with hi | rfl
      · obtain ⟨type', hget', hcarried'⟩ := hfilled i e hi he
        have hkept := hkeeps.trans hkeeps'
        exact ⟨type', hkept hget', hcarried'.keeps hkept⟩
      · cases hd.symm.trans he
        exact ⟨type, hget, hcarried.keeps hkeeps'⟩

/-- What is known of a model that has been loaded: the table of names lists the definitions in
order, every definition has its type, and roots are looked up in the table. -/
theorem load_carried (d : ModelDocument) :
    Outcome (fun m => m.names = d.qualifiedNames.zipIdx ∧
        (∀ (i : Nat) (definition : Definition), d.definitions[i]? = some definition →
          ∃ type, m.model.get i = .ok type ∧ definition.Carried d.qualifiedNames m.model type) ∧
        List.Forall₂ (fun root id => m.names.lookup root = some id) d.roots m.roots)
      (fun _ => True) (load d) := by
  unfold load
  refine (reserveAll_outcome rfl).bind fun r h => ?_
  obtain ⟨_, hfirst, hsecond, _⟩ := h
  obtain ⟨model, table⟩ := r
  have htable : table = d.qualifiedNames.zipIdx := by
    refine (List.zip_of_prod hfirst hsecond).trans ?_
    simp [ModelDocument.qualifiedNames, Arena.empty, Arena.size, List.zipIdx_eq_zip_range']
  subst htable
  have hall : d.definitions.drop 0 = d.definitions := rfl
  refine (defineAll_carried hall fun i _ hi => absurd hi (Nat.not_lt_zero i)).bind
    fun r hcarried => ?_
  refine (Outcome.any _).bind fun _ _ => ?_
  have hroots : Outcome (List.Forall₂ (fun root id => d.qualifiedNames.zipIdx.lookup root = some id)
      d.roots) (fun _ => True) (rootTypes d.qualifiedNames.zipIdx d.roots) := by
    refine Outcome.mapM_forall₂ fun root _ => ?_
    cases hid : d.qualifiedNames.zipIdx.lookup root with
    | some id => rfl
    | none => trivial
  exact hroots.bind fun roots hroots => ⟨rfl, hcarried, hroots⟩

end Loading

/-! ### Whole documents -/

namespace Loaded

variable {d : ModelDocument} {m : LoadedModel} {id : Nat} {type : Descriptor}

/-- Whatever a type refers to is a type of the model. -/
theorem link_lt (h : Loaded d m) (htype : m.model.get id = .ok type) {link : Nat}
    (hlink : link ∈ type.links) : link < m.model.size := by
  have hid := Arena.get_lt htype
  have hfits := h.wellFormed.fits htype
  cases type with
  | complex c =>
    rcases List.mem_append.mp hlink with hlink | hlink
    · exact hfits.1 link (Option.mem_toList.mp hlink)
    · exact hfits.2.1 link hlink
  | nullable inner => exact List.mem_singleton.mp hlink ▸ Nat.lt_trans hfits hid
  | array element => exact List.mem_singleton.mp hlink ▸ Nat.lt_trans hfits hid
  | dictionary key value =>
    rcases List.mem_pair.mp hlink with rfl | rfl
    · exact Nat.lt_trans hfits.1 hid
    · exact Nat.lt_trans hfits.2 hid
  | instantiation definition arguments =>
    rcases List.mem_cons.mp hlink with rfl | hlink
    · exact Nat.lt_trans hfits.1 hid
    · exact Nat.lt_trans (hfits.2.1 link hlink) hid
  | _ => cases hlink

/-- A type that is no record refers to types before itself only. -/
theorem link_lt_self (h : Loaded d m) (htype : m.model.get id = .ok type)
    (hrecord : ∀ c, type ≠ .complex c) {link : Nat} (hlink : link ∈ type.links) : link < id := by
  have hfits := h.wellFormed.fits htype
  cases type with
  | complex c => exact absurd rfl (hrecord c)
  | nullable inner => exact List.mem_singleton.mp hlink ▸ hfits
  | array element => exact List.mem_singleton.mp hlink ▸ hfits
  | dictionary key value =>
    rcases List.mem_pair.mp hlink with rfl | rfl
    · exact hfits.1
    · exact hfits.2
  | instantiation definition arguments =>
    rcases List.mem_cons.mp hlink with rfl | hlink
    · exact hfits.1
    · exact hfits.2.1 link hlink
  | _ => cases hlink

/-- The types with a qualified name are the definitions. -/
theorem getElem?_qualifiedNames (h : Loaded d m) {name : String} :
    d.qualifiedNames[id]? = some name ↔
      ∃ type, m.model.get id = .ok type ∧ type.qualifiedName? = some name := by
  rw [ModelDocument.qualifiedNames, List.getElem?_map, Option.map_eq_some_iff]
  constructor
  · rintro ⟨definition, hget, rfl⟩
    obtain ⟨type, htype, hdescribes⟩ := h.defined id definition hget
    exact ⟨type, htype, hdescribes.qualifiedName?⟩
  · rintro ⟨type, htype, hname⟩
    obtain ⟨definition, hget, hdescribes⟩ := h.definition htype hname
    rw [hdescribes.qualifiedName?, Option.some.injEq] at hname
    exact ⟨definition, hget, hname⟩

/-- A name is found in the model exactly as the table of names has it. -/
theorem find_eq (h : Loaded d m) (hnames : m.names = d.qualifiedNames.zipIdx) (name : String) :
    m.model.find name = m.names.lookup name := by
  have hdistinct : d.qualifiedNames.Nodup := h.distinct
  have hlookup {id : TypeId} : m.names.lookup name = some id ↔
      ∃ type, m.model.get id = .ok type ∧ type.qualifiedName? = some name := by
    rw [hnames, lookup_zipIdx_iff hdistinct, h.getElem?_qualifiedNames]
  cases hfind : m.model.find name with
  | some id =>
    have hname := List.find?_some hfind
    split at hname
    · rename_i type htype
      exact (hlookup.mpr ⟨type, htype, beq_iff_eq.mp hname⟩).symm
    · cases hname
  | none =>
    refine (Option.eq_none_iff_forall_ne_some.mpr fun id hid => ?_).symm
    obtain ⟨type, htype, hname⟩ := hlookup.mp hid
    have hnot := List.find?_eq_none.mp hfind id (Arena.mem_namedTypes htype hname)
    simp [htype, hname] at hnot

end Loaded

/-- Loading is faithful and closed. -/
theorem load_faithful {d : ModelDocument} {m : LoadedModel} (hload : load d = .ok m) :
    Faithful d m := by
  have h := loaded hload
  obtain ⟨hnames, hcarried, hroots⟩ := (load_carried d).result hload
  have hdefined {id : Nat} (hid : id < m.model.size) : ∃ type, m.model.get id = .ok type := by
    obtain ⟨type, htype, -⟩ := h.wellFormed id hid
    exact ⟨type, htype⟩
  refine ⟨hcarried, hnames, hroots, fun _ => hdefined, ?_, ?_, ?_, ?_, ?_, h.find_eq hnames⟩
  · exact fun id type htype link hlink => hdefined (h.link_lt htype hlink)
  · intro id hid
    refine hdefined (h.lt_size ?_)
    rcases List.mem_append.mp hid with hid | hid
    · obtain ⟨entry, hentry, rfl⟩ := List.mem_map.mp hid
      exact h.names entry hentry
    · exact h.roots id hid
  · intro id definition arguments hget
    obtain ⟨-, -, -, hrecord⟩ := h.wellFormed.fits hget
    exact hrecord
  · intro id type hid htype link hlink
    refine .inr (h.link_lt_self htype ?_ hlink)
    rintro c rfl
    cases h.unnamed id _ hid htype
  · intro id hcircle
    -- Numbers go down along a chain of references that starts at no record.
    have hdown {i j : Nat} (hchain : Relation.TransGen (fun link id => ∃ type,
        m.model.get id = .ok type ∧ (∀ c, type ≠ .complex c) ∧ link ∈ type.links) i j) :
        i < j := by
      induction hchain with
      | single hstep =>
        obtain ⟨type, htype, hrecord, hlink⟩ := hstep
        exact h.link_lt_self htype hrecord hlink
      | tail _ hstep ih =>
        obtain ⟨type, htype, hrecord, hlink⟩ := hstep
        exact Nat.lt_trans ih (h.link_lt_self htype hrecord hlink)
    exact Nat.lt_irrefl _ (hdown hcircle)

/-- A record within an instantiation of itself, and one that extends an instantiation. Some names
are written with their namespace and some without. -/
def orders : ModelDocument :=
  ⟨["Shop.Order"], [
    .complex ⟨"Node", some "Shop", ["T"], none, [
      ⟨"value", .parameter "T", false, false, some "What it holds."⟩,
      ⟨"next", .nullable (.generic "Node" [.parameter "T"]), true, false, none⟩]⟩,
    .enum ⟨"Kind", some "Shop", [⟨"Small", .text "Small"⟩, ⟨"Large", .number 2⟩]⟩,
    .complex ⟨"Order", some "Shop", [],
      some (.generic "Shop.Node" [.dictionary (.ref "Kind") (.array (.primitive .string))]),
      [⟨"replaces", .ref "Order", false, true, none⟩]⟩]⟩

/-- The model of these records. -/
def ordersModel : LoadedModel :=
  ⟨⟨#[some (.complex ⟨"Node", some "Shop", ["T"], none, [
        ⟨"value", 3, false, false, some "What it holds."⟩, ⟨"next", 6, true, false, none⟩]⟩),
      some (.enum ⟨"Kind", some "Shop", [⟨"Small", .text "Small"⟩, ⟨"Large", .number 2⟩]⟩),
      some (.complex ⟨"Order", some "Shop", [], some 10, [⟨"replaces", 2, false, true, none⟩]⟩),
      some (.parameter "T"), some (.parameter "T"), some (.instantiation 0 [4]),
      some (.nullable 5), some (.primitive .string), some (.array 7), some (.dictionary 1 8),
      some (.instantiation 0 [9])]⟩,
    [2], [("Shop.Node", 0), ("Shop.Kind", 1), ("Shop.Order", 2)]⟩

/-- The document of orders loads, and the model is faithful to it. -/
theorem load_faithful_orders : load orders = .ok ordersModel ∧ Faithful orders ordersModel :=
  ⟨rfl, load_faithful rfl⟩

end Declgen.Document
