import Declgen.Proofs.Text.Pascal
import Declgen.Proofs.TypeScript.Words
import Declgen.Proofs.Walk.Naming
import Declgen.Proofs.Walk.Termination

/-!
# Which names are identifiers

Names of declarations are never reserved, and where names are in ASCII they have no characters that
an identifier has not. But a name in Pascal case starts with the first letter or digit of its
source, so it starts with a digit where the source does, and it is empty where the source has
neither. The name of an instantiation goes on after that of its record, so it is never empty. Type
parameters are written as they are given, whatever they are.
-/

namespace Declgen.TypeScript

open Text

/-- A name that a declaration or a type parameter may have. -/
def Declarable (name : String) : Prop := isIdentifier name = true ∧ isReserved name = false

/-! ### Safe names -/

/-- Making a name safe makes it one that is not reserved. -/
theorem isReserved_safeName (name : String) : isReserved (safeName name) = false := by
  have hunderscore : ∀ word ∈ reservedWords, word.toList.head? ≠ some '_' := by
    decide +kernel
  rw [safeName]
  split
  · rw [isReserved, List.contains_eq_mem, decide_eq_false_iff_not]
    exact fun hmem => hunderscore _ hmem (by simp)
  · rename_i h
    exact Bool.not_eq_true _ ▸ h

/-- No reserved word has a capital O, so a name that has one stays as it is. -/
theorem safeName_of_mem {name : String} (h : 'O' ∈ name.toList) : safeName name = name := by
  have hcapital : ∀ word ∈ reservedWords, 'O' ∉ word.toList := by decide +kernel
  rw [safeName, if_neg]
  intro hreserved
  exact hcapital name (by simpa [isReserved] using hreserved) h

/-- A text is an identifier if all its characters may be in one and the first is no digit. -/
theorem isIdentifier_iff {s : String} : isIdentifier s = true ↔
    (∃ c, s.toList.head? = some c ∧ c.isDigit = false) ∧
      ∀ c ∈ s.toList, isIdentifierRest c = true := by
  have hstart (c : Char) : isIdentifierStart c = true ↔
      c.isDigit = false ∧ isIdentifierRest c = true := by
    cases hdigit : c.isDigit with
    | true => simp [(isWord_of_isDigit hdigit).2]
    | false => simp [isIdentifierStart, isIdentifierRest, Char.isAlphanum, hdigit]
  unfold isIdentifier
  cases hs : s.toList with
  | nil => simp
  | cons c rest => simp [hstart, and_assoc]

/-- Making a name safe adds no character that an identifier has not. -/
theorem isIdentifierRest_of_mem_safeName {name : String}
    (h : ∀ c ∈ name.toList, isIdentifierRest c = true) :
    ∀ c ∈ (safeName name).toList, isIdentifierRest c = true := by
  have hunderscore : isIdentifierRest '_' = true := by decide
  rw [safeName]
  split
  · simpa [hunderscore] using h
  · exact h

/-- A safe name is an identifier exactly if the name is. -/
theorem isIdentifier_safeName {name : String} :
    isIdentifier (safeName name) = true ↔ isIdentifier name = true := by
  have hidentifiers : ∀ word ∈ reservedWords, isIdentifier word = true := by
    decide +kernel
  by_cases hreserved : isReserved name = true
  · have hname := hidentifiers name (by simpa [isReserved] using hreserved)
    refine iff_of_true (isIdentifier_iff.mpr ⟨⟨'_', ?_, by decide⟩, ?_⟩) hname
    · simp [safeName, hreserved]
    · exact isIdentifierRest_of_mem_safeName (isIdentifier_iff.mp hname).2
  · rw [safeName, if_neg hreserved]

end Declgen.TypeScript

namespace Declgen.Document

open Model Text

/-- All definitions of a document have their names in ASCII. -/
def ModelDocument.Ascii (d : ModelDocument) : Prop :=
  ∀ definition ∈ d.definitions, IsAscii definition.name

instance : DecidablePred ModelDocument.Ascii := fun d =>
  inferInstanceAs (Decidable (∀ definition ∈ d.definitions, IsAscii definition.name))

/-- The records of a model have names in ASCII if the definitions of its document have. -/
theorem Loaded.ascii_complex {d : ModelDocument} {m : LoadedModel} (h : Loaded d m)
    (hascii : d.Ascii) {id : TypeId} {c : ComplexType}
    (hc : m.model.get id = .ok (.complex c)) : IsAscii c.name := by
  obtain ⟨c', hmem, hname, -⟩ := h.exists_complex hc
  exact hname ▸ hascii _ hmem

end Declgen.Document

namespace Declgen.Walk

open Model Document Text TypeScript Declgen.Units

/-! ### Names of declarations -/

section Names

variable {name : String}

/-- A name in Pascal case starts with a digit exactly if the first letter or digit is one. -/
theorem head?_pascalName (hascii : IsAscii name) :
    (pascalName name).toList.head?.map Char.isDigit = (leader? name).map Char.isDigit := by
  rw [pascalName, String.toList_ofList, head?_pascal hascii, leader?, Option.map_map]
  refine Option.map_congr fun c hc => ?_
  have hlt := hascii c (List.mem_of_find?_eq_some hc)
  have halphanum := List.find?_some hc
  rw [isAlphanumeric_of_ascii hlt] at halphanum
  exact (toUpper_alphanum hlt halphanum).2

/-- Put into Pascal case, a name in ASCII consists of letters and digits. -/
theorem isAlphanum_pascalName (hascii : IsAscii name) : IsAlphanum (pascalName name) := by
  rw [IsAlphanum, pascalName, String.toList_ofList]
  exact pascal_alphanum hascii

/-- Letters and digits may go on an identifier. -/
theorem isIdentifierRest_of_isAlphanum {c : Char} (h : c.isAlphanum = true) :
    isIdentifierRest c = true := by
  rw [isIdentifierRest, h]
  rfl

/-- The name of a record or an enumeration is an identifier exactly if the first letter or digit of
its source is a letter. -/
theorem isIdentifier_typeName (hascii : IsAscii name) :
    isIdentifier (typeName name) = true ↔ LetterFirst name := by
  have hrest (c : Char) (hc : c ∈ (pascalName name).toList) : isIdentifierRest c = true :=
    isIdentifierRest_of_isAlphanum (isAlphanum_pascalName hascii c hc)
  have hhead := head?_pascalName hascii
  rw [typeName_eq, isIdentifier_safeName, isIdentifier_iff, and_iff_left hrest]
  simp only [LetterFirst, ← Option.map_eq_some_iff (f := Char.isDigit), hhead]

/-- The name of an instantiation is an identifier exactly if the first letter or digit of the source
of its record is no digit. There may be none. -/
theorem isIdentifier_instantiation {rest : String} (hascii : IsAscii name)
    (hrest : ∀ c ∈ (safeName (pascalName name ++ "Of" ++ rest)).toList,
      isIdentifierRest c = true) :
    isIdentifier (safeName (pascalName name ++ "Of" ++ rest)) = true ↔
      ∀ c, leader? name = some c → c.isDigit = false := by
  rw [isIdentifier_iff, and_iff_left hrest, safeName_of_mem (by simp)]
  have hhead := head?_pascalName hascii
  have hof : "Of".toList = ['O', 'f'] := by decide
  simp only [String.toList_append, hof]
  cases hname : (pascalName name).toList with
  | nil =>
    rw [hname] at hhead
    cases hleader : leader? name with
    | none => simp
    | some c =>
      rw [hleader] at hhead
      cases hhead
  | cons first others =>
    rw [hname] at hhead
    cases hleader : leader? name with
    | none =>
      rw [hleader] at hhead
      cases hhead
    | some c =>
      rw [hleader] at hhead
      simpa using congrArg (· = some false) hhead

end Names

/-! ### Names of units -/

section Trees

variable {d : ModelDocument} {m : LoadedModel} {t : TypeTree} {name : String}

/-- The name made for a type without type parameters is put together from names of primitives and
definitions. -/
theorem TypeTree.name?_induction (hm : Loaded d m) {motive : String → Prop}
    (primitive : ∀ kind : Primitive, motive (pascalName kind.name))
    (definition : ∀ definition ∈ d.definitions, motive (pascalName definition.name))
    (nullable : ∀ inner, motive inner → motive ("Nullable" ++ inner))
    (array : ∀ element, motive element → motive (element ++ "Array"))
    (dictionary : ∀ key value, motive key → motive value →
      motive (key ++ "To" ++ value ++ "Dictionary"))
    (instantiation : ∀ first parts, motive first → (∀ part ∈ parts, motive part) →
      motive (first ++ "Of" ++ "And".intercalate parts))
    (hover : t.Over m.model) (hclosed : t.hasParameter = false) {levels : Nat}
    (h : t.name? levels = some name) : motive name := by
  induction levels generalizing t name with
  | zero => cases h
  | succ levels ih =>
    simp only [name?, Option.bind_eq_bind] at h
    cases hover with
    | primitive =>
      obtain rfl := Option.some.inj h
      exact primitive _
    | enum he =>
      obtain rfl := Option.some.inj h
      exact definition (.enum _) (hm.mem_of_enum he)
    | record hc =>
      obtain rfl := Option.some.inj h
      obtain ⟨c', hmem, hname, -⟩ := hm.exists_complex hc
      exact hname ▸ definition (.complex c') hmem
    | parameter => cases hclosed
    | nullable hinner =>
      obtain ⟨part, hpart, h⟩ := Option.bind_eq_some_iff.mp h
      obtain rfl := Option.some.inj h
      exact nullable part (ih hinner hclosed hpart)
    | array helement =>
      obtain ⟨part, hpart, h⟩ := Option.bind_eq_some_iff.mp h
      obtain rfl := Option.some.inj h
      exact array part (ih helement hclosed hpart)
    | dictionary hkey hvalue =>
      obtain ⟨key, hkey', h⟩ := Option.bind_eq_some_iff.mp h
      obtain ⟨value, hvalue', h⟩ := Option.bind_eq_some_iff.mp h
      obtain rfl := Option.some.inj h
      obtain ⟨hclosedKey, hclosedValue⟩ := Bool.or_eq_false_iff.mp hclosed
      exact dictionary key value (ih hkey hclosedKey hkey') (ih hvalue hclosedValue hvalue')
    | instantiation hc _ _ harguments =>
      obtain ⟨first, hfirst, h⟩ := Option.bind_eq_some_iff.mp h
      obtain ⟨parts, hparts, h⟩ := Option.bind_eq_some_iff.mp h
      obtain rfl := Option.some.inj h
      rw [hasParameter, anyHasParameter_eq_any, List.any_eq_false] at hclosed
      refine instantiation first parts (ih (.record hc) rfl hfirst) fun part hpart => ?_
      obtain ⟨u, hu, hname⟩ := exists_of_mem_mapM hparts hpart
      exact ih (harguments u hu) (Bool.not_eq_true _ ▸ hclosed u hu) hname

/-- The name made for a type without type parameters has letters and digits only. -/
theorem TypeTree.isAlphanum_of_name? (hm : Loaded d m) (hascii : d.Ascii) (hover : t.Over m.model)
    (hclosed : t.hasParameter = false) {levels : Nat} (h : t.name? levels = some name) :
    IsAlphanum name := by
  refine name?_induction hm (fun kind => ?_) (fun definition hmem => ?_) (fun inner hinner => ?_)
    (fun element helement => ?_) (fun key value hkey hvalue => ?_)
    (fun first parts hfirst hparts => ?_) hover hclosed h
  · exact isAlphanum_pascalName (by cases kind <;> decide)
  · exact isAlphanum_pascalName (hascii definition hmem)
  · exact .append (by decide) hinner
  · exact helement.append (by decide)
  · exact ((hkey.append (by decide)).append hvalue).append (by decide)
  · exact (hfirst.append (by decide)).append (.intercalate (by decide) hparts)

/-- All characters of the name of a unit may be in an identifier. -/
theorem TypeTree.isIdentifierRest_of_header? (hm : Loaded d m) (hascii : d.Ascii)
    (ht : Ground m.model t) {header : Header} (h : t.header? = some header) :
    ∀ c ∈ header.name.toList, isIdentifierRest c = true := by
  obtain ⟨hover, hclosed⟩ := ht
  obtain ⟨name, hname, hheader⟩ := exists_name?_of_header? h
  have halphanum := isAlphanum_of_name? hm hascii hover hclosed hname
  rw [hheader]
  exact isIdentifierRest_of_mem_safeName fun c hc => isIdentifierRest_of_isAlphanum (halphanum c hc)

end Trees

/-- No unit has a reserved name. -/
theorem HeaderFor.isReserved {g : Graph} {id : TypeId} {header : Header}
    (h : HeaderFor g id header) : isReserved header.name = false := by
  cases h <;> simp only [typeName_eq, isReserved_safeName]

/-- How a unit is named after the type with number `id`. -/
structure NamedAfter (g : Graph) (id : TypeId) (unit : Completed) : Prop where
  /-- The unit has the identity of the type. -/
  identity : Walk.identity g id = .ok unit.key
  /-- The unit has the header of the type. -/
  header : Walk.header g id = .ok unit.header
  /-- Its declaration starts with this header. -/
  head : unit.body.declaration.head = (unit.header.name, unit.header.typeParams)
  /-- The name is not reserved. -/
  free : isReserved unit.header.name = false
  /-- All of its characters may be in an identifier. -/
  characters : ∀ c ∈ unit.header.name.toList, isIdentifierRest c = true
  /-- The name of an enumeration is an identifier if its source has a letter first. -/
  enum : ∀ e, g.get id = .ok (.enum e) → unit.header.typeParams = [] ∧
    (isIdentifier unit.header.name = true ↔ LetterFirst e.name)
  /-- So is the name of a record. Its type parameters are as they are in the source. -/
  record : ∀ c, g.get id = .ok (.complex c) → unit.header.typeParams = c.typeParams ∧
    (isIdentifier unit.header.name = true ↔ LetterFirst c.name)
  /-- The name of an instantiation is an identifier unless the source of its record has a digit
  first. -/
  instantiation : ∀ (definition : TypeId) (arguments : List TypeId) (c : ComplexType),
    g.get id = .ok (.instantiation definition arguments) →
    g.model.get definition = .ok (.complex c) → unit.header.typeParams = [] ∧
    (isIdentifier unit.header.name = true ↔ ∀ ch, leader? c.name = some ch → ch.isDigit = false)

section Walks

variable {d : ModelDocument} {m : LoadedModel} {setup : Setup} {roots : List TypeId}
  {units : List Completed}

/-- In a walk of a document with names in ASCII every unit is named after a type. -/
theorem Walked.namedAfter {trees : List TypeTree} {s : State}
    (h : Walked setup m.model roots trees s units) (hm : Loaded d m) (hascii : d.Ascii)
    (hroots : ∀ id : Nat, id ∈ roots → id < m.model.size) {unit : Completed}
    (hunit : unit ∈ units) : ∃ id, NamedAfter s.graph id unit := by
  obtain ⟨i, hi⟩ := List.mem_iff_getElem?.mp hunit
  obtain ⟨-, t, ht, hunitOf⟩ := h.unit i unit hi
  obtain ⟨id, -, -, hidentity, hheader⟩ := h.exists_header hunit
  have hfor := headerFor_of_header hheader
  have hground := h.ground hm.wellFormed hroots (List.mem_of_getElem? ht)
  have hcharacters := TypeTree.isIdentifierRest_of_header? hm hascii hground hunitOf.header
  have hhead := TypeTree.head_declaration? hunitOf.header hunitOf.declaration
  refine ⟨id, hidentity, hheader, hhead, hfor.isReserved, hcharacters, fun e he => ?_,
    fun c hc => ?_, fun definition arguments c hget hc => ?_⟩
  · simp only [hfor.of_enum he, true_and]
    exact isIdentifier_typeName (hascii _ (hm.mem_of_enum (h.get_model he rfl)))
  · simp only [hfor.of_record hc, true_and]
    exact isIdentifier_typeName (hm.ascii_complex hascii (h.get_model hc rfl))
  · obtain ⟨parts, -, heq⟩ := hfor.of_instantiation hget hc
    rw [h.model] at hc
    simp only [heq, true_and] at hcharacters ⊢
    exact isIdentifier_instantiation (hm.ascii_complex hascii hc) hcharacters

/-- In a hookless walk of a loaded document with names in ASCII every unit is named after a type.
If the first letter or digit of every definition is a letter, and every type parameter is declarable
as it is, then everything that a declaration starts with is. -/
theorem walk_identifiers (hload : load d = .ok m) (hascii : d.Ascii)
    (hhook : ∀ type, setup.hook type = none) (hwalk : walk setup .empty m.model roots = .ok units) :
    (∃ s, explore setup .empty m.model roots = .ok s ∧
      ∀ unit ∈ units, ∃ id, NamedAfter s.graph id unit) ∧
    ((∀ definition ∈ d.definitions, LetterFirst definition.name) →
      (∀ c, .complex c ∈ d.definitions → ∀ name ∈ c.typeParams, Declarable name) →
      ∀ unit ∈ units, ∀ name ∈ unit.body.declaration.head.1 :: unit.body.declaration.head.2,
        Declarable name) := by
  have hm := loaded hload
  obtain ⟨hroots, trees, s, h⟩ := walked_of_walk hload hhook hwalk
  refine ⟨⟨s, h.explored, fun unit => h.namedAfter hm hascii hroots⟩,
    fun hletters hparams unit hunit => ?_⟩
  obtain ⟨id, hnamed⟩ := h.namedAfter hm hascii hroots hunit
  -- What is left to show is that the name is an identifier and the parameters are declarable.
  suffices isIdentifier unit.header.name = true ∧ ∀ name ∈ unit.header.typeParams,
      Declarable name by
    rw [hnamed.head]
    exact List.forall_mem_cons.mpr ⟨⟨this.1, hnamed.free⟩, this.2⟩
  rcases (headerFor_of_header hnamed.header).exists_get with
    ⟨e, he⟩ | ⟨c, hc⟩ | ⟨definition, arguments, c, hget, hc⟩
  · obtain ⟨hnone, hname⟩ := hnamed.enum e he
    rw [hnone]
    exact ⟨hname.mpr (hletters _ (hm.mem_of_enum (h.get_model he rfl))), by simp⟩
  · obtain ⟨c', hmem, hsource, hparams'⟩ := hm.exists_complex (h.get_model hc rfl)
    obtain ⟨hown, hname⟩ := hnamed.record c hc
    rw [hown, ← hparams']
    exact ⟨hname.mpr (hsource ▸ hletters _ hmem), hparams c' hmem⟩
  · obtain ⟨c', hmem, hsource, -⟩ := hm.exists_complex (h.model ▸ hc)
    obtain ⟨ch, hch, hdigit⟩ := hletters _ hmem
    obtain ⟨hnone, hname⟩ := hnamed.instantiation definition arguments c hget hc
    rw [hnone]
    refine ⟨hname.mpr fun ch' hch' => ?_, by simp⟩
    rw [← hsource] at hch'
    cases hch.symm.trans hch'
    exact hdigit

end Walks

/-- A generic record, an enumeration, and a record that applies one to the other. -/
def lists : ModelDocument :=
  ⟨[], [
    .complex ⟨"user-list", none, ["T"], none,
      [⟨"items", .array (.parameter "T"), false, false, none⟩]⟩,
    .enum ⟨"_kind", none, [⟨"New", .text "new"⟩]⟩,
    .complex ⟨"holder", none, [], none,
      [⟨"lists", .generic "user-list" [.ref "_kind"], false, false, none⟩]⟩]⟩

/-- The model of these types. -/
def listsModel : LoadedModel :=
  ⟨⟨#[some (.complex ⟨"user-list", none, ["T"], none, [⟨"items", 4, false, false, none⟩]⟩),
      some (.enum ⟨"_kind", none, [⟨"New", .text "new"⟩]⟩),
      some (.complex ⟨"holder", none, [], none, [⟨"lists", 5, false, false, none⟩]⟩),
      some (.parameter "T"), some (.array 3), some (.instantiation 0 [1])]⟩,
    [], [("user-list", 0), ("_kind", 1), ("holder", 2)]⟩

/-- All names that are declared for these types are declarable. -/
theorem walk_identifiers_lists :
    load lists = .ok listsModel ∧ lists.Ascii ∧
      ∃ units, walk ⟨{ generics := .preserve }, fun _ => none⟩ .empty listsModel.model [2] =
          .ok units ∧
        units.map (fun unit => unit.body.declaration.head) =
          [("Holder", []), ("UserList", ["T"]), ("Kind", [])] ∧
        ∀ unit ∈ units, ∀ name ∈ unit.body.declaration.head.1 :: unit.body.declaration.head.2,
          Declarable name := by
  have hload : load lists = .ok listsModel := rfl
  have hascii : lists.Ascii := by decide
  have hwalk : (walk ⟨{ generics := .preserve }, fun _ => none⟩ .empty listsModel.model [2]).map
      (·.map fun unit => unit.body.declaration.head) =
        .ok [("Holder", []), ("UserList", ["T"]), ("Kind", [])] := by decide +kernel
  obtain ⟨units, hwalk, hheads⟩ := exists_of_map_eq_ok hwalk
  have hletters : ∀ definition ∈ lists.definitions, LetterFirst definition.name := by
    decide +kernel
  have hparams : ∀ c, .complex c ∈ lists.definitions → ∀ name ∈ c.typeParams, Declarable name := by
    intro c hc
    simp only [lists, List.mem_cons, List.not_mem_nil, or_false, Definition.complex.injEq,
      reduceCtorEq, false_or] at hc
    rcases hc with rfl | rfl
    · exact List.forall_mem_singleton.mpr ⟨by decide, by decide⟩
    · simp
  exact ⟨hload, hascii, units, hwalk, hheads,
    (walk_identifiers hload hascii (fun _ => rfl) hwalk).2 hletters hparams⟩

/-- Records whose names have a digit first or no letter at all, and one whose type parameters are no
identifiers or reserved. -/
def oddities : ModelDocument :=
  ⟨[], [
    .complex ⟨"2fa", none, [], none, []⟩,
    .complex ⟨"_", none, [], none, []⟩,
    .complex ⟨"Box", none, ["my-T", "string"], none, []⟩]⟩

/-- The model of these records. -/
def odditiesModel : LoadedModel :=
  ⟨⟨#[some (.complex ⟨"2fa", none, [], none, []⟩), some (.complex ⟨"_", none, [], none, []⟩),
      some (.complex ⟨"Box", none, ["my-T", "string"], none, []⟩)]⟩,
    [], [("2fa", 0), ("_", 1), ("Box", 2)]⟩

/-- What is declared for these records has names that are no identifiers and a type parameter that
is reserved. -/
theorem oddities_declared :
    load oddities = .ok odditiesModel ∧ oddities.Ascii ∧
      (walk ⟨{}, fun _ => none⟩ .empty odditiesModel.model [0, 1, 2]).map
          (·.map fun unit => unit.body.declaration.toText default) =
        .ok ["export type 2fa = \x7b\x7d;\n", "export type  = \x7b\x7d;\n",
          "export type Box<my-T, string> = \x7b\x7d;\n"] ∧
      isIdentifier "2fa" = false ∧ isIdentifier "" = false ∧ isIdentifier "my-T" = false ∧
      isReserved "string" = true :=
  ⟨rfl, by decide, by decide +kernel, by decide, by decide, by decide, by decide⟩

end Declgen.Walk
