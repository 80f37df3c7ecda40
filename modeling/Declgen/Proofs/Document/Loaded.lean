import Declgen.Proofs.Document.Loading

/-!
# Loaded documents

A document that loads gives a well-formed model: its definitions come first and in order, no two
of them have the same qualified name, and every reference, instantiation and root is resolved.
-/

namespace Declgen.Document

open Model

/-- What loading a document establishes. -/
structure Loaded (d : ModelDocument) (m : LoadedModel) : Prop where
  /-- The model is well-formed. -/
  wellFormed : m.model.WellFormed
  /-- The definitions come first. -/
  defined : ∀ (i : Nat) (definition : Definition), d.definitions[i]? = some definition →
    ∃ type, m.model.get i = .ok type ∧ definition.Describes type
  /-- Nothing after them is a record or an enumeration. -/
  unnamed : ∀ (i : Nat) (type : Descriptor), d.definitions.length ≤ i →
    m.model.get i = .ok type → type.qualifiedName? = none
  /-- Their qualified names differ. -/
  distinct : (d.definitions.map Definition.qualifiedName).Nodup
  /-- Instantiations come from generic expressions. -/
  counted : ∀ (i : Nat) (definition : TypeId) (arguments : List TypeId),
    m.model.get i = .ok (.instantiation definition arguments) →
      ∃ other ∈ d.definitions, arguments.length ∈ other.counts
  /-- Names stand for definitions. -/
  names : ∀ entry ∈ m.names, (entry.2 : Nat) < d.definitions.length
  /-- So do roots. -/
  roots : ∀ id : Nat, id ∈ m.roots → id < d.definitions.length

/-- Reserving gives every definition the next slot and its name, and no name to two of them. -/
theorem reserveAll_outcome {definitions : List Definition} {model : Arena}
    {names : List (String × TypeId)} (hsize : model.size = names.length) :
    Outcome (fun r => r.1.slots.toList =
          model.slots.toList ++ List.replicate definitions.length none ∧
        r.2.map (·.1) = names.map (·.1) ++ definitions.map Definition.qualifiedName ∧
        r.2.map (·.2) = names.map (·.2) ++ List.range' model.size definitions.length ∧
        ((names.map (·.1)).Nodup → (r.2.map (·.1)).Nodup))
      (fun _ => True) (reserveAll definitions model names) := by
  induction definitions generalizing model names with
  | nil => simp [reserveAll]
  | cons d definitions ih =>
    rw [reserveAll]
    by_cases hnew : (names.lookup d.qualifiedName).isSome = true
    · rw [if_pos hnew]
      trivial
    rw [if_neg hnew]
    have hsize' :
        model.reserve.1.size = (names ++ [(d.qualifiedName, model.reserve.2)]).length := by
      simp [Arena.reserve, Arena.size, ← hsize]
    refine (ih hsize').weaken fun r hr => ?_
    obtain ⟨hslots, hnames, hids, hnodup⟩ := hr
    refine ⟨?_, ?_, ?_, fun hold => hnodup ?_⟩
    · rw [hslots]
      simp [Arena.reserve, List.replicate_succ]
    · rw [hnames]
      simp
    · rw [hids]
      simp [Arena.reserve, Arena.size, List.range'_succ]
    · have hnot : d.qualifiedName ∉ names.map (·.1) := by
        simp only [Bool.not_eq_true, Option.isSome_eq_false_iff, Option.isNone_iff_eq_none,
          List.lookup_eq_none_iff] at hnew
        intro hmem
        obtain ⟨entry, hentry, heq⟩ := List.mem_map.mp hmem
        simpa [heq] using hnew entry hentry
      rw [List.map_append, List.nodup_append]
      refine ⟨hold, by simp, fun a ha b hb => ?_⟩
      simp only [List.map_cons, List.map_nil, List.mem_singleton] at hb
      exact fun heq => hnot (by rwa [← hb, ← heq])

/-- The types that root names stand for are among those that names stand for. -/
theorem rootTypes_outcome {names : List (String × TypeId)} {count : Nat}
    (hnames : ∀ entry ∈ names, (entry.2 : Nat) < count) (roots : List String) :
    Outcome (fun ids => ∀ id : Nat, id ∈ ids → id < count) (fun _ => True)
      (rootTypes names roots) := by
  have hlookup : Outcome (fun ids => roots.mapM (fun root => names.lookup root) = some ids)
      (fun _ => True) (rootTypes names roots) := by
    refine Outcome.mapM_option fun root _ => ?_
    cases hid : names.lookup root with
    | some id => rfl
    | none => trivial
  refine hlookup.weaken fun ids hids id hid => ?_
  obtain ⟨root, -, hroot⟩ := exists_of_mem_mapM hids hid
  obtain ⟨before, after, rfl, -⟩ := List.lookup_eq_some_iff.mp hroot
  exact hnames (root, id) (by simp)

/-- The slots of the definitions before anything is resolved. -/
theorem sound_reserved {definitions : List Definition} {allowed : Nat → Prop} {model : Arena}
    (h : model.slots.toList = List.replicate definitions.length none) :
    Loading.Sound definitions allowed 0 ⟨model, #[]⟩ := by
  have hsize : model.size = definitions.length := by
    simpa [Arena.size] using congrArg List.length h
  constructor
  · exact Nat.le_of_eq hsize.symm
  · intro i _ hi
    rw [← Array.getElem?_toList, h, List.getElem?_replicate, if_pos hi]
  · intro i d _ hi
    omega
  · intro i hcount hi
    dsimp only at hi
    omega
  · simp

/-- A descriptor has the qualified name of the definition that it describes. -/
theorem Definition.Describes.qualifiedName? {d : Definition} {type : Descriptor}
    (h : d.Describes type) : type.qualifiedName? = some d.qualifiedName := by
  cases d with
  | complex c =>
    cases type with
    | complex type =>
      obtain ⟨hname, hspace, -⟩ := h
      simp only [Descriptor.qualifiedName?, ComplexType.qualifiedName, hname, hspace,
        Definition.qualifiedName]
    | _ => exact h.elim
  | enum e =>
    cases type with
    | enum type =>
      cases h
      rfl
    | _ => exact h.elim

/-- An instantiation that passes the check fits its record. -/
theorem checked_outcome (model : Arena) (definition : TypeId) (count : Nat) :
    Outcome (fun _ => ∃ c, model.get definition = .ok (.complex c) ∧ c.typeParams.length = count)
      (fun _ => True) ((model.genericDefinition definition count).map fun _ => ()) := by
  unfold Arena.genericDefinition
  cases hget : model.get definition with
  | error e => trivial
  | ok d =>
    cases d with
    | complex c =>
      dsimp only
      by_cases hlength : c.typeParams.length = count
      · rw [if_pos hlength]
        exact ⟨c, rfl, hlength⟩
      · rw [if_neg hlength]
        trivial
    | _ => trivial

/-- A type that is prepared fits its place when all noted instantiations have been checked. -/
theorem fits_of_prepared {model : Arena} {notes : List (TypeId × Nat)} {count id : Nat}
    (hcheck : ∀ note ∈ notes, ∃ c, model.get note.1 = .ok (.complex c) ∧
      c.typeParams.length = note.2)
    {type : Descriptor} (htype : Prepared notes count model.size id type)
    (hget : model.get id = .ok type) (hid : type.qualifiedName? = none → count ≤ id) :
    model.Fits id type := by
  cases type with
  | instantiation definition arguments =>
    obtain ⟨hdefinition, harguments, hnote⟩ := htype
    exact ⟨Nat.lt_of_lt_of_le hdefinition (hid rfl), harguments, ⟨id, arguments, hget⟩,
      hcheck _ hnote⟩
  | _ => exact htype

/-- When all definitions have their types, everything a loaded model is asked for holds. -/
theorem loaded_of_sound {d : ModelDocument} {s : Loading} {names : List (String × TypeId)}
    {roots : List TypeId}
    (h : s.Sound d.definitions (fun count => ∃ other ∈ d.definitions, count ∈ other.counts)
      d.definitions.length)
    (hcheck : ∀ note ∈ s.instantiations.toList, ∃ c, s.model.get note.1 = .ok (.complex c) ∧
      c.typeParams.length = note.2)
    (hdistinct : (d.definitions.map Definition.qualifiedName).Nodup)
    (hnames : ∀ entry ∈ names, (entry.2 : Nat) < d.definitions.length)
    (hroots : ∀ id : Nat, id ∈ roots → id < d.definitions.length) :
    Loaded d ⟨s.model, roots, names⟩ where
  wellFormed i hi := by
    by_cases hcount : d.definitions.length ≤ i
    · obtain ⟨type, htype, -, hprepared⟩ := h.parts i hcount hi
      have hget := Arena.get_eq_ok_iff.mpr htype
      exact ⟨type, hget, fits_of_prepared hcheck hprepared hget fun _ => hcount⟩
    · have hlt : i < d.definitions.length := Nat.lt_of_not_le hcount
      obtain ⟨type, htype, hdescribes, hprepared⟩ :=
        h.defined i d.definitions[i] (List.getElem?_eq_getElem hlt) hlt
      have hget := Arena.get_eq_ok_iff.mpr htype
      refine ⟨type, hget, fits_of_prepared hcheck hprepared hget fun hnone => ?_⟩
      rw [hdescribes.qualifiedName?] at hnone
      cases hnone
  defined i definition hdefinition := by
    have hlt := (List.getElem?_eq_some_iff.mp hdefinition).1
    obtain ⟨type, htype, hdescribes, -⟩ := h.defined i definition hdefinition hlt
    exact ⟨type, Arena.get_eq_ok_iff.mpr htype, hdescribes⟩
  unnamed i type hi hget := by
    obtain ⟨type', htype', hnone, -⟩ := h.parts i hi (Arena.get_lt hget)
    rw [Arena.get_eq_ok_iff.mp hget] at htype'
    cases htype'
    exact hnone
  distinct := hdistinct
  counted i definition arguments hget := by
    have hslot := Arena.get_eq_ok_iff.mp hget
    by_cases hcount : d.definitions.length ≤ i
    · obtain ⟨type, htype, -, hprepared⟩ := h.parts i hcount (Arena.get_lt hget)
      rw [hslot] at htype
      cases htype
      exact h.allowed _ hprepared.2.2
    · have hlt : i < d.definitions.length := Nat.lt_of_not_le hcount
      obtain ⟨type, htype, hdescribes, -⟩ :=
        h.defined i d.definitions[i] (List.getElem?_eq_getElem hlt) hlt
      rw [hslot] at htype
      cases htype
      cases hdescribes.qualifiedName?
  names := hnames
  roots := hroots

/-- Loading a document succeeds only with a model in which everything is in place. -/
theorem loaded {d : ModelDocument} {m : LoadedModel} (h : load d = .ok m) : Loaded d m := by
  suffices houtcome : Outcome (Loaded d) (fun _ => True) (load d) from houtcome.result h
  unfold load
  refine (reserveAll_outcome rfl).bind fun r hr => ?_
  obtain ⟨model, names⟩ := r
  obtain ⟨hslots, hnames, hids, hnodup⟩ := hr
  have hlt : ∀ entry ∈ names, (entry.2 : Nat) < d.definitions.length := by
    intro entry hentry
    have hmem : entry.2 ∈ names.map (·.2) := List.mem_map_of_mem hentry
    rw [hids] at hmem
    simpa [Arena.empty, Arena.size] using hmem
  have hdistinct : (d.definitions.map Definition.qualifiedName).Nodup := by
    simpa [hnames] using hnodup (by simp)
  have hstart : Loading.Sound d.definitions
      (fun count => ∃ other ∈ d.definitions, count ∈ other.counts) 0 ⟨model, #[]⟩ :=
    sound_reserved hslots
  refine (defineAll_outcome hlt hstart rfl fun other hother count hcount =>
    ⟨other, hother, hcount⟩).bind fun r hsound => ?_
  obtain ⟨_, s⟩ := r
  refine (Outcome.forM fun note _ => checked_outcome s.model note.1 note.2).bind fun _ hcheck => ?_
  refine (rootTypes_outcome hlt d.roots).bind fun roots hroots => ?_
  exact loaded_of_sound hsound hcheck hdistinct hlt hroots

/-- The roots of a generation are definitions. -/
theorem Loaded.resolveRoots_lt {d : ModelDocument} {m : LoadedModel} (h : Loaded d m)
    {names : List String} {roots : List TypeId} (hroots : m.resolveRoots names = .ok roots) :
    ∀ id : Nat, id ∈ roots → id < d.definitions.length := by
  unfold LoadedModel.resolveRoots at hroots
  split at hroots
  · exact (rootTypes_outcome h.names names).result hroots
  · split at hroots
    · cases hroots
      intro id hid
      obtain ⟨entry, hentry, rfl⟩ := List.mem_map.mp hid
      exact h.names entry hentry
    · cases hroots
      exact h.roots

/-- The model holds every definition at its place. -/
theorem Loaded.lt_size {d : ModelDocument} {m : LoadedModel} (h : Loaded d m) {id : Nat}
    (hid : id < d.definitions.length) : id < m.model.size := by
  obtain ⟨type, htype, -⟩ := h.defined id d.definitions[id] (List.getElem?_eq_getElem hid)
  exact Arena.get_lt htype

/-- A record or an enumeration of the model stands for the definition at its place. -/
theorem Loaded.definition {d : ModelDocument} {m : LoadedModel} (h : Loaded d m) {id : Nat}
    {type : Descriptor} {name : String} (htype : m.model.get id = .ok type)
    (hname : type.qualifiedName? = some name) :
    ∃ definition, d.definitions[id]? = some definition ∧ definition.Describes type := by
  by_cases hid : d.definitions.length ≤ id
  · rw [h.unnamed id type hid htype] at hname
    cases hname
  · have hlt : id < d.definitions.length := Nat.lt_of_not_le hid
    have hget : d.definitions[id]? = some d.definitions[id] := List.getElem?_eq_getElem hlt
    obtain ⟨type', htype', hdescribes⟩ := h.defined id d.definitions[id] hget
    rw [htype] at htype'
    cases htype'
    exact ⟨d.definitions[id], hget, hdescribes⟩

/-- No two records or enumerations of the model have the same qualified name. -/
theorem Loaded.namesDistinct {d : ModelDocument} {m : LoadedModel} (h : Loaded d m) :
    m.model.NamesDistinct := by
  intro i j type type' name hi hj hname hname'
  obtain ⟨definition, hget, hdescribes⟩ := h.definition hi hname
  obtain ⟨definition', hget', hdescribes'⟩ := h.definition hj hname'
  rw [hdescribes.qualifiedName?] at hname
  rw [hdescribes'.qualifiedName?] at hname'
  have heq : (d.definitions.map Definition.qualifiedName)[i]? =
      (d.definitions.map Definition.qualifiedName)[j]? := by
    rw [List.getElem?_map, List.getElem?_map, hget, hget', Option.map_some, Option.map_some,
      hname, hname']
  refine (List.getElem?_inj ?_ h.distinct).mp heq
  rw [List.length_map]
  exact (List.getElem?_eq_some_iff.mp hget).1

end Declgen.Document
