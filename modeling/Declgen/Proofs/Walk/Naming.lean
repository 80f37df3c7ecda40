import Declgen.Proofs.Walk.Ground

/-!
# What units are called

The header of a unit is the one that its type has in the graph at the end of the walk. A record or
an enumeration gives its own name. The name of an instantiation starts with that of its record, and
the names of its arguments follow, one for each.
-/

namespace Declgen.TypeScript

/-- The name and the type parameters that a declaration starts with. -/
def Declaration.head : Declaration → String × List String
  | .alias name typeParams _ => (name, typeParams)
  | .enum name _ => (name, [])

end Declgen.TypeScript

namespace Declgen.Walk

open Model TypeScript Declgen.Units

/-! ### Names from trees -/

/-- A sequence of calls gives the values of a function where each call does. -/
theorem mapM_eq_ok_of_some {ε α β : Type} {f : α → Except ε β} {h : α → Option β} {as : List α}
    {bs : List β} (hf : ∀ a ∈ as, ∀ b, h a = some b → f a = .ok b) (hbs : as.mapM h = some bs) :
    as.mapM f = .ok bs := by
  rw [mapM_eq_some_iff] at hbs
  induction hbs with
  | nil => rfl
  | @cons a b as bs head _ ih =>
    rw [List.mapM_cons, hf a (by simp) b head, ih fun a' ha' => hf a' (by simp [ha'])]
    rfl

section Names

variable {g : Graph} {id : Nat}

/-- A name that a tree has is the one that is made for its type. -/
theorem synthesizedWithin_eq (hg : g.WellFormed) {levels : Nat} {above : List TypeId}
    (hid : id < g.size) (habove : ∀ a : Nat, a ∈ above → id < a) {name : String}
    (h : (g.tree id).name? levels = some name) :
    synthesizedWithin g levels above id = .ok name := by
  induction levels generalizing id above name with
  | zero => cases h
  | succ levels ih =>
    obtain ⟨d, hd, hfits⟩ := hg.exists_get hid
    have hpart (i : Nat) (hi : i < id) {part : String}
        (hpart : (g.tree i).name? levels = some part) :
        synthesizedWithin g levels (id :: above) i = .ok part :=
      ih (by omega) (lt_of_mem_above hi habove) hpart
    rw [synthesizedWithin, if_neg (contains_above_eq_false habove), hd]
    rw [hg.tree_eq hd] at h
    cases d with
    | primitive kind => exact congrArg _ (Option.some.inj h)
    | enum e => exact congrArg _ (Option.some.inj h)
    | complex c => exact congrArg _ (Option.some.inj h)
    | parameter name => exact congrArg _ (Option.some.inj h)
    | nullable inner =>
      simp only [treeOf, TypeTree.name?, Option.bind_eq_bind, Option.bind_eq_some_iff] at h
      obtain ⟨part, hname, h⟩ := h
      simp only [ok_bind, hpart inner hfits hname]
      exact congrArg _ (Option.some.inj h)
    | array element =>
      simp only [treeOf, TypeTree.name?, Option.bind_eq_bind, Option.bind_eq_some_iff] at h
      obtain ⟨part, hname, h⟩ := h
      simp only [ok_bind, hpart element hfits hname]
      exact congrArg _ (Option.some.inj h)
    | dictionary key value =>
      simp only [treeOf, TypeTree.name?, Option.bind_eq_bind, Option.bind_eq_some_iff] at h
      obtain ⟨first, hfirst, second, hsecond, h⟩ := h
      simp only [ok_bind, hpart key hfits.1 hfirst, hpart value hfits.2 hsecond]
      exact congrArg _ (Option.some.inj h)
    | instantiation definition arguments =>
      obtain ⟨hdefinition, harguments, -, c, hc, -⟩ := hfits
      have htree : g.tree definition = .record definition c := hg.tree_eq (Graph.get_model hc)
      simp only [treeOf, hc, TypeTree.name?, Option.bind_eq_bind, Option.bind_eq_some_iff,
        ← htree] at h
      obtain ⟨first, hfirst, rest, hrest, h⟩ := h
      rw [List.mapM_map] at hrest
      have hlist : arguments.mapM (synthesizedWithin g levels (id :: above)) = .ok rest :=
        mapM_eq_ok_of_some (fun i hi _ => hpart i (harguments i hi)) hrest
      simp only [ok_bind, hpart definition hdefinition hfirst, hlist]
      exact congrArg _ (Option.some.inj h)

/-- A header that a tree has is the one of its type. -/
theorem header_eq (hg : g.WellFormed) (hid : id < g.size) {h : Header}
    (hheader : (g.tree id).header? = some h) : header g id = .ok h := by
  obtain ⟨d, hd, -⟩ := hg.exists_get hid
  rw [header, hd]
  cases d with
  | enum e =>
    rw [hg.tree_eq hd] at hheader
    exact congrArg _ (Option.some.inj hheader)
  | complex c =>
    rw [hg.tree_eq hd] at hheader
    exact congrArg _ (Option.some.inj hheader)
  | instantiation definition arguments =>
    obtain ⟨c, hc, -, hdefinition⟩ := hg.definition hd
    have htree := hg.tree_instantiation hd hc
    rw [htree] at hheader
    obtain ⟨name, hname, rfl⟩ := Option.map_eq_some_iff.mp hheader
    rw [← htree] at hname
    have hname : synthesizedName g id = .ok name := synthesizedWithin_eq hg hid (by simp) hname
    simp only [ok_bind, hdefinition, hname]
    rfl
  | _ =>
    rw [hg.tree_eq hd] at hheader
    cases hheader

/-- The three ways in which a named type gets its header. -/
inductive HeaderFor (g : Graph) (id : TypeId) : Header → Prop
  /-- An enumeration has its own name and no type parameters. -/
  | enum {e : EnumType} (h : g.get id = .ok (.enum e)) :
    HeaderFor g id ⟨typeName e.name, e.space, []⟩
  /-- A record has its own name and its own type parameters. -/
  | record {c : ComplexType} (h : g.get id = .ok (.complex c)) :
    HeaderFor g id ⟨typeName c.name, c.space, c.typeParams⟩
  /-- An instantiation has the name of its record and of its arguments, and no type parameters. -/
  | instantiation {definition : TypeId} {arguments : List TypeId} {c : ComplexType}
    {parts : List String} (h : g.get id = .ok (.instantiation definition arguments))
    (hc : g.model.get definition = .ok (.complex c)) (hlength : parts.length = arguments.length) :
    HeaderFor g id
      ⟨safeName (pascalName c.name ++ "Of" ++ "And".intercalate parts), c.space, []⟩

/-- The name of an instantiation is made from that of its record and one for each argument. -/
theorem synthesizedName_instantiation {definition : TypeId} {arguments : List TypeId}
    {c : ComplexType} {name : String} (hget : g.get id = .ok (.instantiation definition arguments))
    (hc : g.model.get definition = .ok (.complex c)) (h : synthesizedName g id = .ok name) :
    ∃ parts : List String, parts.length = arguments.length ∧
      name = pascalName c.name ++ "Of" ++ "And".intercalate parts := by
  rw [synthesizedName, nameLevels, synthesizedWithin, hget, ok_bind] at h
  split at h
  · cases h
  obtain ⟨first, hfirst, h⟩ := bind_eq_ok h
  obtain ⟨parts, hparts, h⟩ := bind_eq_ok h
  rw [synthesizedWithin, Graph.get_model hc] at hfirst
  split at hfirst
  · cases hfirst
  obtain rfl := Except.ok.inj hfirst
  obtain rfl := Except.ok.inj h
  have hlength := ((Outcome.mapM_forall₂ fun _ _ => Outcome.any _).result hparts).length_eq
  exact ⟨parts, hlength.symm, rfl⟩

/-- A header is made in one of the three ways. -/
theorem headerFor_of_header {h : Header} (hheader : header g id = .ok h) : HeaderFor g id h := by
  rw [header] at hheader
  obtain ⟨d, hd, hheader⟩ := bind_eq_ok hheader
  cases d with
  | enum e =>
    obtain rfl := Except.ok.inj hheader
    exact .enum hd
  | complex c =>
    obtain rfl := Except.ok.inj hheader
    exact .record hd
  | instantiation definition arguments =>
    obtain ⟨c, hdefinition, hheader⟩ := bind_eq_ok hheader
    obtain ⟨name, hname, hheader⟩ := bind_eq_ok hheader
    obtain ⟨hc, -⟩ := Graph.get_of_definition hdefinition
    obtain ⟨parts, hlength, rfl⟩ := synthesizedName_instantiation hd hc hname
    obtain rfl := Except.ok.inj hheader
    exact .instantiation hd hc hlength
  | _ => cases hheader

namespace HeaderFor

variable {h : Header}

/-- What has a header is an enumeration, a record, or an instantiation of a record of the model. -/
theorem exists_get (hfor : HeaderFor g id h) : (∃ e, g.get id = .ok (.enum e)) ∨
    (∃ c, g.get id = .ok (.complex c)) ∨ ∃ definition arguments c,
      g.get id = .ok (.instantiation definition arguments) ∧
        g.model.get definition = .ok (.complex c) := by
  cases hfor with
  | enum he => exact .inl ⟨_, he⟩
  | record hc => exact .inr (.inl ⟨_, hc⟩)
  | instantiation hget hc => exact .inr (.inr ⟨_, _, _, hget, hc⟩)

/-- The header of an enumeration. -/
theorem of_enum (hfor : HeaderFor g id h) {e : EnumType} (he : g.get id = .ok (.enum e)) :
    h = ⟨typeName e.name, e.space, []⟩ := by
  cases hfor with
  | enum he' =>
    cases he.symm.trans he'
    rfl
  | record hc => cases he.symm.trans hc
  | instantiation hget => cases he.symm.trans hget

/-- The header of a record. -/
theorem of_record (hfor : HeaderFor g id h) {c : ComplexType}
    (hc : g.get id = .ok (.complex c)) : h = ⟨typeName c.name, c.space, c.typeParams⟩ := by
  cases hfor with
  | enum he => cases hc.symm.trans he
  | record hc' =>
    cases hc.symm.trans hc'
    rfl
  | instantiation hget => cases hc.symm.trans hget

/-- The header of an instantiation, whose name is made from those of its arguments. -/
theorem of_instantiation (hfor : HeaderFor g id h) {definition : TypeId} {arguments : List TypeId}
    {c : ComplexType} (hget : g.get id = .ok (.instantiation definition arguments))
    (hc : g.model.get definition = .ok (.complex c)) :
    ∃ parts : List String, parts.length = arguments.length ∧
      h = ⟨safeName (pascalName c.name ++ "Of" ++ "And".intercalate parts), c.space, []⟩ := by
  cases hfor with
  | enum he => cases hget.symm.trans he
  | record hc' => cases hget.symm.trans hc'
  | @instantiation definition' _ c' parts hget' hc' hlength =>
    cases hget.symm.trans hget'
    cases hc.symm.trans hc'
    exact ⟨parts, hlength, rfl⟩

end HeaderFor

end Names

/-! ### Names of units -/

/-- A declaration starts as the header of its type says. -/
theorem TypeTree.head_declaration? {options : Options} {a : Arena} {registry : Registry}
    {t : TypeTree} {h : Header} {declaration : Declaration} (hheader : t.header? = some h)
    (hdeclaration : t.declaration? options a registry h.name = some declaration) :
    declaration.head = (h.name, h.typeParams) := by
  cases t with
  | enum id e =>
    obtain rfl := Option.some.inj hheader
    obtain rfl := Option.some.inj hdeclaration
    cases options.enums <;> rfl
  | record id c =>
    obtain rfl := Option.some.inj hheader
    obtain ⟨e, -, rfl⟩ := Option.map_eq_some_iff.mp hdeclaration
    rfl
  | instantiation definition c arguments =>
    obtain ⟨name, -, rfl⟩ := Option.map_eq_some_iff.mp hheader
    obtain ⟨e, -, rfl⟩ := Option.map_eq_some_iff.mp hdeclaration
    rfl
  | _ => cases hheader

section Units

variable {setup : Setup} {a : Arena} {roots : List TypeId} {trees : List TypeTree} {s : State}
  {units : List Completed} {unit : Completed}

/-- Whatever is not put together from other types comes from the model that is walked. -/
theorem Walked.get_model (h : Walked setup a roots trees s units) {id : TypeId} {type : Descriptor}
    (hget : s.graph.get id = .ok type) (hcomposite : type.isComposite = false) :
    a.get id = .ok type :=
  h.model ▸ h.sound.graph.get_model_of_not_composite hget hcomposite

/-- Every unit has the identity and the header of a type of the graph whose tree it belongs to. -/
theorem Walked.exists_header (h : Walked setup a roots trees s units) (hunit : unit ∈ units) :
    ∃ id : Nat, id < s.graph.size ∧ s.graph.tree id ∈ trees ∧
      identity s.graph id = .ok unit.key ∧ header s.graph id = .ok unit.header := by
  obtain ⟨i, hi⟩ := List.mem_iff_getElem?.mp hunit
  obtain ⟨-, t, ht, hunitOf⟩ := h.unit i unit hi
  have hmem := List.mem_of_getElem? ht
  obtain ⟨id, hid, rfl⟩ := h.sound.source t hmem
  refine ⟨id, hid, hmem, ?_, header_eq h.sound.graph hid hunitOf.header⟩
  rw [identity_eq h.sound.graph hid, hunitOf.key]

end Units

end Declgen.Walk
