import Declgen.Proofs.Nullability.Loading
import Declgen.Proofs.Nullability.Walks

/-!
# Generating from documents that repeat nullability

Types that may be null can say so as often as one likes: the same units and files are generated.
Where generic records are not preserved, this leaves out the arguments of generic expressions, which
are spelled out in the names of units.
-/

namespace Declgen.Walk

open Model Document Declgen.Units

variable {inside here : Bool} {d d' : ModelDocument} {m m' : LoadedModel}

/-! ### Definitions in the two models -/

/-- Definitions and their repetitions have types with the same numbers. -/
theorem exists_carried (h : d.Doubled inside d') (hload : load d = .ok m)
    (hload' : load d' = .ok m') {i : Nat} {definition : Definition}
    (hi : d.definitions[i]? = some definition) :
    ∃ definition' type type', definition.Doubled inside definition' ∧
      m.model.get i = .ok type ∧ definition.Carried d.qualifiedNames m.model type ∧
      m'.model.get i = .ok type' ∧ definition'.Carried d.qualifiedNames m'.model type' := by
  obtain ⟨definition', hi', hdoubled⟩ := h.exists_definition hi
  obtain ⟨-, hcarried, -⟩ := (load_carried d).result hload
  obtain ⟨-, hcarried', -⟩ := (load_carried d').result hload'
  obtain ⟨type, htype, hdefined⟩ := hcarried i definition hi
  obtain ⟨type', htype', hdefined'⟩ := hcarried' i definition' hi'
  have hnames : d.qualifiedNames = d'.qualifiedNames := qualifiedNames_eq h.definitions
  rw [← hnames] at hdefined'
  exact ⟨definition', type, type', hdoubled, htype, hdefined, htype', hdefined'⟩

/-- A record of the one model has the number of a record of the other one. -/
theorem exists_carried_record (h : d.Doubled inside d') (hload : load d = .ok m)
    (hload' : load d' = .ok m') {id : TypeId} {c : ComplexType}
    (hc : m.model.get id = .ok (.complex c)) :
    ∃ (e e' : ComplexDef) (c' : ComplexType), e.Doubled inside e' ∧
      e.Carried d.qualifiedNames m.model c ∧ m'.model.get id = .ok (.complex c') ∧
      e'.Carried d.qualifiedNames m'.model c' := by
  obtain ⟨definition, hid, -⟩ := (loaded hload).definition hc rfl
  obtain ⟨definition', type, type', hdoubled, htype, hdefined, htype', hdefined'⟩ :=
    exists_carried h hload hload' hid
  cases hc.symm.trans htype
  cases hdefined with
  | complex hcarried =>
    cases hdoubled with
    | complex hdoubled =>
      cases hdefined' with
      | complex hcarried' => exact ⟨_, _, _, hdoubled, hcarried, htype', hcarried'⟩

/-- The records that are loaded have the same head. -/
theorem sameHead_of_carried {names : List String} {a a' : Arena} {e e' : ComplexDef}
    {c c' : ComplexType} (h : e.Doubled inside e') (hc : e.Carried names a c)
    (hc' : e'.Carried names a' c') :
    c.SameHead c' where
  name := by rw [hc.name, hc'.name, h.name]
  space := by rw [hc.space, hc'.space, h.space]
  typeParams := by rw [hc.typeParams, hc'.typeParams, h.typeParams]

/-! ### Types of the two models -/

/-- The tree of a type of the model is made of those of its parts. -/
theorem modelTree_eq {a : Arena} (ha : a.WellFormed) {id : TypeId} {type : Descriptor}
    (htype : a.get id = .ok type) : modelTree a id = treeOf a id (modelTree a) type :=
  (Graph.ofModel_wellFormed ha).tree_eq (Graph.get_model htype)

/-- The types of a definition agree. -/
theorem definition_agrees (h : d.Doubled inside d') (hload : load d = .ok m)
    (hload' : load d' = .ok m') {id : Nat} {definition : Definition}
    (hid : d.definitions[id]? = some definition) :
    (modelTree m.model id).Agrees inside here (modelTree m'.model id) := by
  obtain ⟨definition', type, type', hdoubled, htype, hdefined, htype', hdefined'⟩ :=
    exists_carried h hload hload' hid
  rw [modelTree_eq (loaded hload).wellFormed htype, modelTree_eq (loaded hload').wellFormed htype']
  cases hdoubled with
  | enum e =>
    cases hdefined
    cases hdefined'
    exact .enum id e
  | complex hdoubled =>
    cases hdefined with
    | complex hcarried =>
      cases hdefined' with
      | complex hcarried' => exact .record id (sameHead_of_carried hdoubled hcarried hcarried')

/-- Types that a name stands for agree. -/
theorem named_agrees (h : d.Doubled inside d') (hload : load d = .ok m) (hload' : load d' = .ok m')
    {owner name : String} {i j : TypeId} (hi : StandsFor d.qualifiedNames owner name i)
    (hj : StandsFor d.qualifiedNames owner name j) :
    (modelTree m.model i).Agrees inside here (modelTree m'.model j) := by
  obtain rfl := hi.unique (loaded hload).distinct hj
  obtain ⟨other, hother⟩ : ∃ other, d.qualifiedNames[i]? = some other := by
    rcases hi with hi | ⟨-, _, _, -, -, hi⟩
    · exact ⟨_, hi⟩
    · exact ⟨_, hi⟩
  rw [ModelDocument.qualifiedNames, List.getElem?_map, Option.map_eq_some_iff] at hother
  obtain ⟨definition, hdefinition, -⟩ := hother
  exact definition_agrees h hload hload' hdefinition

/-- Types that are written as several expressions agree one by one. -/
theorem allWritten_agrees {names : List String} {a a' : Arena} {owner : String}
    {es es' : List TypeExpr}
    (h : List.Forall₂ (fun e e' => ∀ i j, Written names a owner e i → Written names a' owner e' j →
      (modelTree a i).Agrees inside here (modelTree a' j)) es es') {is js : List TypeId}
    (hi : AllWritten names a owner es is) (hj : AllWritten names a' owner es' js) :
    List.Forall₂ (TypeTree.Agrees inside here) (is.map (modelTree a)) (js.map (modelTree a')) := by
  induction h generalizing is js with
  | nil =>
    cases is with
    | nil =>
      cases js with
      | nil => exact .nil
      | cons j js => exact hj.elim
    | cons i is => exact hi.elim
  | cons head _ ih =>
    cases is with
    | nil => exact hi.elim
    | cons i is =>
      cases js with
      | nil => exact hj.elim
      | cons j js => exact .cons (head i j hi.1 hj.1) (ih hi.2 hj.2)

/-- Types agree that are written as an expression and as the same one with repetitions. -/
theorem written_agrees (h : d.Doubled inside d') (hload : load d = .ok m)
    (hload' : load d' = .ok m') {owner : String} {e e' : TypeExpr}
    (he : e.Doubled inside here e') {i j : TypeId}
    (hi : Written d.qualifiedNames m.model owner e i)
    (hj : Written d.qualifiedNames m'.model owner e' j) :
    (modelTree m.model i).Agrees inside here (modelTree m'.model j) := by
  have htree {i : TypeId} {type : Descriptor} (htype : m.model.get i = .ok type) :=
    modelTree_eq (loaded hload).wellFormed htype
  have htree' {j : TypeId} {type : Descriptor} (htype : m'.model.get j = .ok type) :=
    modelTree_eq (loaded hload').wellFormed htype
  induction he generalizing i j with
  | primitive kind =>
    rw [Written] at hi hj
    rw [htree hi, htree' hj]
    exact .primitive kind
  | parameter name =>
    rw [Written] at hi hj
    rw [htree hi, htree' hj]
    exact .parameter name
  | ref name =>
    exact named_agrees h hload hload' hi hj
  | nullable _ ih =>
    obtain ⟨i', hget, hi⟩ := hi
    obtain ⟨j', hget', hj⟩ := hj
    rw [htree hget, htree' hget']
    exact .nullable (ih hi hj)
  | double _ ih =>
    obtain ⟨j', hget', hj⟩ := hj
    have hagree := ih hi hj
    obtain ⟨j'', hget'', -⟩ := hj
    rw [htree' hget''] at hagree
    rw [htree' hget', treeOf, htree' hget'']
    exact .right hagree
  | array _ ih =>
    obtain ⟨i', hget, hi⟩ := hi
    obtain ⟨j', hget', hj⟩ := hj
    rw [htree hget, htree' hget']
    exact .array (ih hi hj)
  | dictionary _ _ ihkey ihvalue =>
    obtain ⟨key, value, hget, hkey, hvalue⟩ := hi
    obtain ⟨key', value', hget', hkey', hvalue'⟩ := hj
    rw [htree hget, htree' hget']
    exact .dictionary (ihkey hkey hkey') (ihvalue hvalue hvalue')
  | generic name hlength _ ih =>
    obtain ⟨definition, is, hget, hname, his⟩ := hi
    obtain ⟨definition', js, hget', hname', hjs⟩ := hj
    obtain rfl := hname.unique (loaded hload).distinct hname'
    obtain ⟨-, -, -, c, hc, -⟩ := (loaded hload).wellFormed.fits hget
    obtain ⟨_, _, c', hdoubled, hcarried, hc', hcarried'⟩ := exists_carried_record h hload hload' hc
    have hagree := allWritten_agrees (List.forall₂_iff_zip.mpr ⟨hlength, fun {_ _} hmem i j =>
      ih _ _ hmem⟩) his hjs
    rw [htree hget, htree' hget', treeOf, treeOf, hc, hc']
    obtain ⟨hcount, hmembers⟩ := List.forall₂_iff_zip.mp hagree
    exact .instantiation definition (sameHead_of_carried hdoubled hcarried hcarried') hcount
      fun t u => hmembers

/-! ### Models -/

/-- Members agree that are carried over from a definition and from its repetitions. -/
theorem members_agree (h : d.Doubled inside d') (hload : load d = .ok m) (hload' : load d' = .ok m')
    {owner : String} {members members' : List MemberDef}
    (hmembers : List.Forall₂ (MemberDef.Doubled inside) members members') {own own' : List Member}
    (hown : List.Forall₂ (MemberDef.Carried d.qualifiedNames m.model owner) members own)
    (hown' : List.Forall₂ (MemberDef.Carried d.qualifiedNames m'.model owner) members' own') :
    List.Forall₂ (Member.Matches fun i j =>
      (modelTree m.model i).Agrees inside true (modelTree m'.model j)) own own' := by
  induction hmembers generalizing own own' with
  | nil =>
    cases hown
    cases hown'
    exact .nil
  | cons head _ ih =>
    cases hown with
    | cons hm hown =>
      cases hown' with
      | cons hm' hown' =>
        refine .cons ⟨?_, written_agrees h hload hload' head.type hm.type hm'.type, ?_, ?_, ?_⟩
          (ih hown hown')
        · rw [hm.name, hm'.name, head.name]
        · rw [hm.optional, hm'.optional, head.optional]
        · rw [hm.nullable, hm'.nullable, head.nullable]
        · rw [hm.doc, hm'.doc, head.doc]

/-- The models of a document and of its repetitions agree. -/
theorem modelsAgree_of_doubled (h : d.Doubled inside d') (hload : load d = .ok m)
    (hload' : load d' = .ok m') : ModelsAgree inside m.model m'.model := by
  intro id c c' hc hc'
  obtain ⟨e, e', c'', hdoubled, hcarried, hget, hcarried'⟩ :=
    exists_carried_record h hload hload' hc
  cases hget.symm.trans hc'
  obtain ⟨hname, hspace, hparams⟩ := sameHead_of_carried hdoubled hcarried hcarried'
  have howner : qualify e'.space e'.name = qualify e.space e.name := by
    rw [hdoubled.space, hdoubled.name]
  have hbases := hdoubled.base
  have hbase := hcarried.base
  have hbase' := hcarried'.base
  have hmembers' := hcarried'.members
  rw [howner] at hbase' hmembers'
  refine ⟨hname, hspace, hparams, ?_,
    members_agree h hload hload' hdoubled.members hcarried.members hmembers'⟩
  generalize e.base = base, e'.base = base' at hbases hbase hbase'
  generalize c.base = id, c'.base = id' at hbase hbase' ⊢
  cases hbases with
  | none =>
    cases hbase
    cases hbase'
    exact .none
  | some hbases =>
    cases hbase with
    | some hbase =>
      cases hbase' with
      | some hbase' => exact .some (written_agrees h hload hload' hbases hbase hbase')

/-! ### Generations -/

/-- From the same roots, the walks over both models succeed together, with the same units. -/
theorem walk_doubled {setup : Setup} (hhook : ∀ type, setup.hook type = none)
    (hinside : inside = true → setup.options.generics = .preserve) (h : d.Doubled inside d')
    (hload : load d = .ok m) (hload' : load d' = .ok m') {roots : List TypeId}
    (hroots : ∀ id : Nat, id ∈ roots → id < d.definitions.length) (units : List Completed) :
    walk setup .empty m.model roots = .ok units ↔ walk setup .empty m'.model roots = .ok units := by
  have hm := loaded hload
  have hm' := loaded hload'
  have hg := Graph.ofModel_wellFormed hm.wellFormed
  have hg' := Graph.ofModel_wellFormed hm'.wellFormed
  have hmodels := modelsAgree_of_doubled h hload hload'
  have hall : List.Forall₂ (fun i j : Nat => i < m.model.size ∧ j < m'.model.size ∧
      (modelTree m.model i).Agrees inside true (modelTree m'.model j)) roots roots := by
    refine List.forall₂_same.mpr fun id hid => ?_
    have hlt := hroots id hid
    have hlt' : (id : Nat) < d'.definitions.length := h.definitions.length_eq ▸ hlt
    exact ⟨hm.lt_size hlt, hm'.lt_size hlt',
      definition_agrees h hload hload' (List.getElem?_eq_getElem hlt)⟩
  have hall' : List.Forall₂ (fun i j : Nat => i < m'.model.size ∧ j < m.model.size ∧
      (modelTree m'.model i).Agrees inside true (modelTree m.model j)) roots roots :=
    hall.flip.imp fun i j hij => ⟨hij.2.1, hij.1, hij.2.2.symm⟩
  constructor
  · intro hwalk
    obtain ⟨_, hwalk', rfl⟩ := walk_agrees hhook hinside hg hg' hmodels hall units hwalk
    exact hwalk'
  · intro hwalk
    obtain ⟨_, hwalk', rfl⟩ := walk_agrees hhook hinside hg' hg hmodels.symm hall' units hwalk
    exact hwalk'

/-- A generation is a walk, with the files that its units make. -/
theorem generate_eq_ok_iff {setup : Setup} {registry : Registry} {a : Arena} {roots : List TypeId}
    {generation : Generation} : generate setup registry a roots = .ok generation ↔
      walk setup registry a roots = .ok generation.units ∧
        generation.files = Plan.files setup.options generation.units := by
  constructor
  · intro h
    obtain ⟨units, hwalk, h⟩ := bind_eq_ok h
    cases h
    exact ⟨hwalk, rfl⟩
  · rintro ⟨hwalk, hfiles⟩
    rw [generate, hwalk, ok_bind, ← hfiles]
    rfl

/-- Where a document loads, so does it with repetitions, names and roots stand for the same numbers,
and from the same roots the generations over both models succeed together, with the same files. -/
theorem generate_doubled {setup : Setup} (hhook : ∀ type, setup.hook type = none)
    (hinside : inside = true → setup.options.generics = .preserve) (h : d.Doubled inside d')
    (hload : load d = .ok m) :
    ∃ m', load d' = .ok m' ∧ (∀ names, m.resolveRoots names = m'.resolveRoots names) ∧
      ∀ names roots, m.resolveRoots names = .ok roots → ∀ generation,
        generate setup .empty m.model roots = .ok generation ↔
          generate setup .empty m'.model roots = .ok generation := by
  obtain ⟨m', hload', hnames, hroots⟩ := load_follows h m hload
  refine ⟨m', hload', fun names => ?_, fun names roots hresolve generation => ?_⟩
  · rw [LoadedModel.resolveRoots, LoadedModel.resolveRoots, hnames, hroots]
  · have hlt := (loaded hload).resolveRoots_lt hresolve
    rw [generate_eq_ok_iff, generate_eq_ok_iff, walk_doubled hhook hinside h hload hload' hlt]

/-! ### A box of something that may be null -/

/-- A record with a box of something. -/
def boxHolder (argument : TypeExpr) : ModelDocument :=
  ⟨["Holder"], [
    .complex ⟨"Box", none, ["T"], none, [⟨"value", .parameter "T", false, false, none⟩]⟩,
    .complex ⟨"Holder", none, [], none,
      [⟨"box", .generic "Box" [argument], false, false, none⟩]⟩]⟩

/-- The expression for an integer or null. -/
def nullableInteger : TypeExpr := .nullable (.primitive .integer)

/-- The box may say once more that what it holds may be null. -/
theorem boxHolder_doubled :
    (boxHolder nullableInteger).Doubled true (boxHolder (.nullable nullableInteger)) := by
  refine ⟨rfl, .cons (.refl _) (.cons (.complex ⟨rfl, rfl, rfl, .none, .cons ?_ .nil⟩) .nil)⟩
  refine ⟨rfl, .generic "Box" rfl fun e e' h => ?_, rfl, rfl, rfl⟩
  obtain ⟨rfl, rfl⟩ : e = nullableInteger ∧ e' = .nullable nullableInteger := by simpa using h
  exact .double (.refl _ _)

/-- The model of the document that says once that the content of the box may be null. -/
def onceModel : LoadedModel :=
  ⟨⟨#[some (.complex ⟨"Box", none, ["T"], none, [⟨"value", 2, false, false, none⟩]⟩),
      some (.complex ⟨"Holder", none, [], none, [⟨"box", 5, false, false, none⟩]⟩),
      some (.parameter "T"), some (.primitive .integer), some (.nullable 3),
      some (.instantiation 0 [4])]⟩,
    [1], [("Box", 0), ("Holder", 1)]⟩

/-- The model of the document that says so twice. -/
def twiceModel : LoadedModel :=
  ⟨⟨#[some (.complex ⟨"Box", none, ["T"], none, [⟨"value", 2, false, false, none⟩]⟩),
      some (.complex ⟨"Holder", none, [], none, [⟨"box", 6, false, false, none⟩]⟩),
      some (.parameter "T"), some (.primitive .integer), some (.nullable 3), some (.nullable 4),
      some (.instantiation 0 [5])]⟩,
    [1], [("Box", 0), ("Holder", 1)]⟩

/-- Where generic records are preserved, both documents have the same files. -/
theorem generate_doubled_boxHolder :
    load (boxHolder nullableInteger) = .ok onceModel ∧
      load (boxHolder (.nullable nullableInteger)) = .ok twiceModel ∧
      ∃ generation, generation.files.map (·.path) = ["holder.ts", "box.ts"] ∧
        generate ⟨{ generics := .preserve }, fun _ => none⟩ .empty onceModel.model [1] =
          .ok generation ∧
        generate ⟨{ generics := .preserve }, fun _ => none⟩ .empty twiceModel.model [1] =
          .ok generation := by
  have hload : load (boxHolder nullableInteger) = .ok onceModel := rfl
  have hload' : load (boxHolder (.nullable nullableInteger)) = .ok twiceModel := rfl
  have hfiles : (generate ⟨{ generics := .preserve }, fun _ => none⟩ .empty onceModel.model [1]).map
      (fun generation => generation.files.map (·.path)) = .ok ["holder.ts", "box.ts"] := by
    decide +kernel
  obtain ⟨generation, hgenerate, hpaths⟩ := exists_of_map_eq_ok hfiles
  have hhook : ∀ type, (Setup.mk { generics := .preserve } fun _ => none).hook type = none :=
    fun _ => rfl
  obtain ⟨m', hm', -, hsame⟩ := generate_doubled hhook (fun _ => rfl) boxHolder_doubled hload
  cases hload'.symm.trans hm'
  exact ⟨hload, hload', generation, hpaths, hgenerate, (hsame [] [1] rfl generation).mp hgenerate⟩

/-- Where they are not, the names of their files tell how often the argument says so. -/
theorem boxHolder_files_differ :
    (boxHolder nullableInteger).Doubled true (boxHolder (.nullable nullableInteger)) ∧
      load (boxHolder nullableInteger) = .ok onceModel ∧
      load (boxHolder (.nullable nullableInteger)) = .ok twiceModel ∧
      (generate ⟨{}, fun _ => none⟩ .empty onceModel.model [1]).map
          (fun generation => generation.files.map (·.path)) =
        .ok ["holder.ts", "box-of-nullable-integer.ts"] ∧
      (generate ⟨{}, fun _ => none⟩ .empty twiceModel.model [1]).map
          (fun generation => generation.files.map (·.path)) =
        .ok ["holder.ts", "box-of-nullable-nullable-integer.ts"] :=
  ⟨boxHolder_doubled, rfl, rfl, by decide +kernel, by decide +kernel⟩

end Declgen.Walk
