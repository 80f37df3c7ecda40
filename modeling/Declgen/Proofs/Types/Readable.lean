import Declgen.Proofs.Types.Unfolding
import Mathlib.Data.List.Induction

/-!
# Reading identities back

An identity is put together from names and the marks `[`, `]`, `,`, `?` and the backtick. Where no
name holds a mark, the last characters of an identity tell how its type is made, and its
arguments end at the commas outside of all brackets. So a type without parameters can be read back
from its identity, provided that no name is empty or that of a primitive type and every
instantiation has an argument.
-/

namespace Declgen.Walk

open Model

/-! ### Records -/

/-- The identity of a record is its qualified name, and its arity behind a backtick if it is
generic. -/
theorem toList_recordIdentity (c : ComplexType) : (recordIdentity c).toList =
    if c.isGeneric then c.qualifiedName.toList ++ '\x60' :: Nat.toDigits 10 c.typeParams.length
    else c.qualifiedName.toList := by
  unfold recordIdentity
  split
  · simp [Nat.toString_eq_repr, Nat.toList_repr]
  · rfl

/-- An arity is written in digits. -/
theorem isDigit_of_mem_arity {n : Nat} {ch : Char} (h : ch ∈ Nat.toDigits 10 n) :
    ch.isDigit = true :=
  Nat.isDigit_of_mem_toDigits (by omega) (by omega) h

/-- A number is known by its digits. -/
theorem toDigits_injective {n k : Nat} (h : Nat.toDigits 10 n = Nat.toDigits 10 k) : n = k := by
  rw [← Nat.ofDigitChars_ten_toDigits (n := n), h, Nat.ofDigitChars_ten_toDigits]

/-- A record that is not generic has no type parameters. -/
theorem length_typeParams_of_not_generic {c : ComplexType} (h : c.isGeneric = false) :
    c.typeParams.length = 0 := by
  simpa [ComplexType.isGeneric] using h

/-- Where names have no backtick, the identity of a record tells its name and its arity. -/
theorem recordIdentity_injective {c c' : ComplexType} (hc : '\x60' ∉ c.qualifiedName.toList)
    (hc' : '\x60' ∉ c'.qualifiedName.toList) (h : recordIdentity c = recordIdentity c') :
    c.qualifiedName = c'.qualifiedName ∧ c.typeParams.length = c'.typeParams.length := by
  have hlist := congrArg String.toList h
  rw [toList_recordIdentity, toList_recordIdentity] at hlist
  have hdigits (n : Nat) : '\x60' ∉ Nat.toDigits 10 n :=
    fun hmem => absurd (isDigit_of_mem_arity hmem) (by decide)
  cases hgeneric : c.isGeneric <;> cases hgeneric' : c'.isGeneric <;>
    simp only [hgeneric, hgeneric', if_true, if_false, Bool.false_eq_true] at hlist
  · refine ⟨String.toList_injective hlist, ?_⟩
    rw [length_typeParams_of_not_generic hgeneric, length_typeParams_of_not_generic hgeneric']
  · exact absurd (hlist ▸ by simp) hc
  · exact absurd (hlist.symm ▸ by simp) hc'
  · obtain ⟨hname, -, harity⟩ :=
      (List.append_cons_inj_of_notMem hc' (hdigits _)).mp hlist.symm
    exact ⟨(String.toList_injective hname).symm, (toDigits_injective harity).symm⟩

/-- The identity of a record without parameters is its name, that of any other record ends with a
digit. -/
theorem recordIdentity_cases (c : ComplexType) :
    (c.typeParams.length = 0 ∧ recordIdentity c = c.qualifiedName) ∨
      ('\x60' ∈ (recordIdentity c).toList ∧
        ∃ ch, (recordIdentity c).toList.getLast? = some ch ∧ ch.isDigit = true) := by
  cases hgeneric : c.isGeneric with
  | false =>
    refine .inl ⟨length_typeParams_of_not_generic hgeneric, ?_⟩
    rw [recordIdentity, if_neg (by simp [hgeneric])]
  | true =>
    rw [toList_recordIdentity, if_pos hgeneric]
    refine .inr ⟨by simp, ?_⟩
    obtain ⟨ch, hch⟩ : ∃ ch, (Nat.toDigits 10 c.typeParams.length).getLast? = some ch :=
      Option.ne_none_iff_exists'.mp fun hnone =>
        Nat.toDigits_ne_nil (List.getLast?_eq_none_iff.mp hnone)
    refine ⟨ch, ?_, isDigit_of_mem_arity (List.mem_of_getLast? hch)⟩
    simp [List.getLast?_cons, hch]

/-- How many type parameters the unit of a type has. -/
def TypeTree.arity : TypeTree → Nat
  | .record _ c => c.typeParams.length
  | _ => 0

/-- The unit of a type has as many type parameters as the type says. -/
theorem TypeTree.length_typeParams_of_header? {t : TypeTree} {header : Units.Header}
    (h : t.header? = some header) : header.typeParams.length = t.arity := by
  cases t with
  | enum id e =>
    cases h
    rfl
  | record id c =>
    cases h
    rfl
  | instantiation definition c arguments =>
    obtain ⟨name, -, rfl⟩ := Option.map_eq_some_iff.mp h
    rfl
  | _ => cases h

/-- No qualified name of the model holds a backtick. -/
def NoBacktick (a : Arena) : Prop :=
  ∀ ⦃id d name⦄, a.get id = .ok d → d.qualifiedName? = some name → '\x60' ∉ name.toList

/-- The identity of an instantiation ends with a bracket. -/
theorem getLast?_spelling_instantiation (definition : TypeId) (c : ComplexType)
    (arguments : List TypeTree) :
    (TypeTree.instantiation definition c arguments).spelling.toList.getLast? = some ']' := by
  rw [TypeTree.spelling, String.toList_append]
  exact List.getLast?_concat

/-- Where names have no backtick, named types with one identity have equally many parameters. -/
theorem arity_eq_of_spelling_eq {a : Arena} (ha : NoBacktick a) {t t' : TypeTree}
    (ht : t.Over a) (ht' : t'.Over a) (hnamed : t.isNamed = true) (hnamed' : t'.isNamed = true)
    (h : t.spelling = t'.spelling) : t.arity = t'.arity := by
  -- A record has no parameters if its identity is that of an enumeration or an instantiation.
  have henum {id id' : TypeId} {c : ComplexType} {e : EnumType} (he : a.get id' = .ok (.enum e))
      (h : (TypeTree.record id c).spelling = (TypeTree.enum id' e).spelling) :
      c.typeParams.length = 0 := by
    rcases recordIdentity_cases c with ⟨hlength, -⟩ | ⟨hmem, -⟩
    · exact hlength
    · have heq : recordIdentity c = e.qualifiedName := h
      exact absurd (heq ▸ hmem) (ha he rfl)
  have hinstantiation {id definition : TypeId} {c c' : ComplexType} {arguments : List TypeTree}
      (h : (TypeTree.record id c).spelling =
        (TypeTree.instantiation definition c' arguments).spelling) :
      c.typeParams.length = 0 := by
    rcases recordIdentity_cases c with ⟨hlength, -⟩ | ⟨-, ch, hlast, hdigit⟩
    · exact hlength
    · have hbracket := getLast?_spelling_instantiation definition c' arguments
      rw [← h] at hbracket
      cases hlast.symm.trans hbracket
      exact absurd hdigit (by decide)
  cases ht with
  | record hc =>
    cases ht' with
    | record hc' => exact (recordIdentity_injective (ha hc rfl) (ha hc' rfl) h).2
    | enum he => exact henum he h
    | instantiation => exact hinstantiation h
    | _ => cases hnamed'
  | enum he =>
    cases ht' with
    | record hc => exact (henum he h.symm).symm
    | enum => rfl
    | instantiation => rfl
    | _ => cases hnamed'
  | instantiation =>
    cases ht' with
    | record hc => exact (hinstantiation h.symm).symm
    | enum => rfl
    | instantiation => rfl
    | _ => cases hnamed'
  | _ => cases hnamed

/-! ### Reading from the end -/

/-- Whether a character is a mark that separates the parts of an identity. -/
def isMark (ch : Char) : Bool := ch == '[' || ch == ']' || ch == ',' || ch == '?'

/-- A word has no marks if none is found in it. -/
theorem unmarked_of_any {word : List Char} (h : word.any isMark = false) :
    ∀ ch ∈ word, isMark ch = false := by
  intro ch hch
  simpa only [Bool.not_eq_true] using List.any_eq_false.mp h ch hch

/-- A name that cannot be taken for anything else in an identity. -/
structure IsReadable (name : String) : Prop where
  /-- It is there. -/
  nonempty : name ≠ ""
  /-- It has no marks. -/
  unmarked : ∀ ch ∈ name.toList, isMark ch = false
  /-- It has no backtick. -/
  unticked : '\x60' ∉ name.toList
  /-- No primitive type has this name. -/
  unlike : ∀ kind : Primitive, name ≠ kind.name

/-- A model whose identities can be read back. -/
structure Readable (a : Arena) : Prop where
  /-- No name is used twice. -/
  distinct : a.NamesDistinct
  /-- Every name is readable. -/
  names : ∀ ⦃id d name⦄, a.get id = .ok d → d.qualifiedName? = some name → IsReadable name
  /-- Only records with parameters are instantiated. -/
  applied : ∀ ⦃definition c⦄, a.get definition = .ok (.complex c) → a.Instantiates definition →
    c.typeParams ≠ []

/-- A text that is empty or starts where a part of an identity ends. -/
def Ends (text : List Char) : Prop := ∀ ch ∈ text.head?, ch = ',' ∨ ch = '['

/-- A word without marks ends at the first mark. -/
theorem word_append_inj {word word' rest rest' : List Char}
    (hword : ∀ ch ∈ word, isMark ch = false) (hword' : ∀ ch ∈ word', isMark ch = false)
    (hrest : Ends rest) (hrest' : Ends rest') (h : word ++ rest = word' ++ rest') :
    word = word' ∧ rest = rest' := by
  have hempty {more rest rest' : List Char} (hmore : ∀ ch ∈ more, isMark ch = false)
      (hends : Ends rest) (heq : rest = more ++ rest') : more = [] := by
    cases more with
    | nil => rfl
    | cons ch more =>
      have hmark := hmore ch List.mem_cons_self
      rcases hends ch (by simp [heq]) with rfl | rfl <;> cases hmark
  rcases List.append_eq_append_iff.mp h with ⟨more, hmore, heq⟩ | ⟨more, hmore, heq⟩
  · have hnil : more = [] := hempty (fun ch hch => hword' ch (by simp [hmore, hch])) hrest heq
    subst hnil
    exact ⟨by simpa using hmore.symm, by simpa using heq⟩
  · have hnil : more = [] := hempty (fun ch hch => hword ch (by simp [hmore, hch])) hrest' heq
    subst hnil
    exact ⟨by simpa using hmore, by simpa using heq.symm⟩

namespace TypeTree

/-- The identity of a type, read from its end. -/
def code (t : TypeTree) : List Char := t.spelling.toList.reverse

/-- The identities of several types with commas between them, read from the end. -/
def codes (ts : List TypeTree) : List Char :=
  (String.intercalate "," (ts.map spelling)).toList.reverse

/-- Whether the identity of a type is a single word. -/
def isWord : TypeTree → Bool
  | .primitive _ | .enum .. | .record .. => true
  | _ => false

/-- What a type is applied to in its identity, after the word that is applied. -/
def application? : TypeTree → Option (List Char × List TypeTree)
  | .dictionary key value => some ("Dictionary".toList.reverse, [key, value])
  | .instantiation definition c arguments => some ((record definition c).code, arguments)
  | _ => none

/-- Read from the end, the identity of a nullable type starts with its mark. -/
private theorem code_nullable (t : TypeTree) : (nullable t).code = '?' :: t.code := by
  simp [code, spelling]

/-- Read from the end, the identity of an array starts with its brackets. -/
private theorem code_array (t : TypeTree) : (array t).code = ']' :: '[' :: t.code := by
  simp [code, spelling]

/-- A single identity has no commas around it. -/
private theorem codes_singleton (t : TypeTree) : codes [t] = t.code := by
  simp [codes, code]

/-- Read from the end, the last of several identities comes first, before a comma. -/
theorem codes_concat {ts : List TypeTree} (hts : ts ≠ []) (t : TypeTree) :
    codes (ts ++ [t]) = t.code ++ ',' :: codes ts := by
  have hmap : ts.map spelling ≠ [] := by simpa using hts
  rw [codes, List.map_append, String.intercalate_append_of_ne_nil hmap (by simp)]
  simp [codes, code]

/-- Read from the end, the arguments of an application stand before the word that is applied. -/
theorem code_of_application? {t : TypeTree} {word : List Char} {arguments : List TypeTree}
    (h : t.application? = some (word, arguments)) :
    t.code = ']' :: (codes arguments ++ '[' :: word) := by
  cases t with
  | dictionary key value =>
    cases h
    simp [code, codes, spelling]
  | instantiation definition c arguments =>
    cases h
    simp [code, codes, spelling]
  | _ => cases h

/-! ### Words -/

variable {a : Arena}

/-- A primitive is known by its name. -/
theorem primitive_name_injective {kind kind' : Primitive} (h : kind.name = kind'.name) :
    kind = kind' := by
  have hname (kind : Primitive) : Primitive.ofName? kind.name = some kind := by
    cases kind <;> rfl
  have hsome := hname kind
  rw [h, hname kind'] at hsome
  exact (Option.some.inj hsome).symm

/-- The name of a primitive has no marks. -/
theorem primitive_unmarked (kind : Primitive) : ∀ ch ∈ kind.name.toList, isMark ch = false := by
  apply unmarked_of_any
  cases kind <;> decide

/-- Nor does the identity of a record with a readable name. -/
theorem recordIdentity_unmarked {c : ComplexType} (hc : IsReadable c.qualifiedName) :
    ∀ ch ∈ (recordIdentity c).toList, isMark ch = false := by
  intro ch hch
  rw [toList_recordIdentity] at hch
  split at hch
  · rcases List.mem_append.mp hch with hch | hch
    · exact hc.unmarked ch hch
    · rcases List.mem_cons.mp hch with rfl | hch
      · decide
      · have hdigit := isDigit_of_mem_arity hch
        by_contra hmark
        simp only [isMark, Bool.not_eq_false, Bool.or_eq_true, beq_iff_eq] at hmark
        rcases hmark with ((rfl | rfl) | rfl) | rfl <;> exact absurd hdigit (by decide)
  · exact hc.unmarked ch hch

/-- A single word has no marks. -/
theorem unmarked_of_isWord (ha : Readable a) {t : TypeTree} (ht : t.Over a)
    (hword : t.isWord = true) : ∀ ch ∈ t.code, isMark ch = false := by
  intro ch hch
  rw [code, List.mem_reverse] at hch
  cases ht with
  | primitive => exact primitive_unmarked _ ch hch
  | enum he => exact (ha.names he rfl).unmarked ch hch
  | record hc => exact recordIdentity_unmarked (ha.names hc rfl) ch hch
  | _ => cases hword

/-- A single word is not empty. -/
theorem code_ne_nil_of_isWord (ha : Readable a) {t : TypeTree} (ht : t.Over a)
    (hword : t.isWord = true) : t.code ≠ [] := by
  intro hnil
  rw [code, List.reverse_eq_nil_iff] at hnil
  cases ht with
  | @primitive _ kind =>
    rw [spelling] at hnil
    revert hnil
    cases kind <;> decide
  | enum he => exact (ha.names he rfl).nonempty (String.toList_eq_nil_iff.mp hnil)
  | record hc =>
    rw [spelling, toList_recordIdentity] at hnil
    split at hnil
    · simp at hnil
    · exact (ha.names hc rfl).nonempty (String.toList_eq_nil_iff.mp hnil)
  | _ => cases hword

/-- A record that is spelled like its readable name without a backtick is not generic. -/
theorem recordIdentity_eq_of_unticked {c : ComplexType} {name : String}
    (hname : '\x60' ∉ name.toList) (h : recordIdentity c = name) : c.qualifiedName = name := by
  rcases recordIdentity_cases c with ⟨-, heq⟩ | ⟨hmem, -⟩
  · exact heq.symm.trans h
  · exact absurd (h ▸ hmem) hname

/-- A word is the identity of one type only. -/
theorem word_injective (ha : Readable a) {t t' : TypeTree} (ht : t.Over a) (ht' : t'.Over a)
    (hword : t.isWord = true) (hword' : t'.isWord = true) (h : t.spelling = t'.spelling) :
    t = t' := by
  have hkind (kind : Primitive) : '\x60' ∉ kind.name.toList := by cases kind <;> decide
  -- The identity of a record or an enumeration is none of a primitive type.
  have hprimitive {id : TypeId} {c : ComplexType} {kind : Primitive}
      (hc : a.get id = .ok (.complex c)) : recordIdentity c ≠ kind.name := fun heq =>
    (ha.names hc rfl).unlike kind (recordIdentity_eq_of_unticked (hkind kind) heq)
  -- Nor do a record and an enumeration have the same.
  have henum {id id' : TypeId} {c : ComplexType} {e : EnumType} (hc : a.get id = .ok (.complex c))
      (he : a.get id' = .ok (.enum e)) : recordIdentity c ≠ e.qualifiedName := by
    intro heq
    have hname := recordIdentity_eq_of_unticked (ha.names he rfl).unticked heq
    cases ha.distinct hc he rfl (by rw [hname]; rfl)
    cases hc.symm.trans he
  cases ht with
  | @primitive _ kind =>
    cases ht' with
    | primitive => exact congrArg primitive (primitive_name_injective h)
    | enum he => exact absurd h.symm ((ha.names he rfl).unlike kind)
    | record hc => exact absurd h.symm (hprimitive hc)
    | _ => cases hword'
  | enum he =>
    cases ht' with
    | @primitive _ kind => exact absurd h ((ha.names he rfl).unlike kind)
    | enum he' =>
      cases ha.distinct he he' rfl (congrArg some h.symm)
      cases he.symm.trans he'
      rfl
    | record hc => exact absurd h.symm (henum hc he)
    | _ => cases hword'
  | record hc =>
    cases ht' with
    | primitive => exact absurd h (hprimitive hc)
    | enum he => exact absurd h (henum hc he)
    | record hc' =>
      have hname := (recordIdentity_injective (ha.names hc rfl).unticked
        (ha.names hc' rfl).unticked h).1
      cases ha.distinct hc hc' rfl (congrArg some hname.symm)
      cases hc.symm.trans hc'
      rfl
    | _ => cases hword'
  | _ => cases hword

/-! ### Types -/

/-- A type of a model in which no type parameter occurs. -/
structure Ground (a : Arena) (t : TypeTree) : Prop where
  /-- The type comes from the model. -/
  inModel : t.Over a
  /-- No parameter occurs in it. -/
  closed : t.hasParameter = false

/-- Where no parameter occurs in a nullable type, none occurs in the type that may be null. -/
theorem Ground.nullable {t : TypeTree} (h : Ground a t.nullable) : Ground a t := by
  cases h.inModel with
  | nullable hover => exact ⟨hover, h.closed⟩

/-- Nor does one occur in the elements of an array. -/
theorem Ground.array {t : TypeTree} (h : Ground a t.array) : Ground a t := by
  cases h.inModel with
  | array hover => exact ⟨hover, h.closed⟩

/-- What a type without parameters is applied to has no parameters either, and the word before it
has no marks. -/
theorem Ground.application (ha : Readable a) {t : TypeTree} (h : Ground a t) {word : List Char}
    {arguments : List TypeTree} (happlication : t.application? = some (word, arguments)) :
    arguments ≠ [] ∧ (∀ u ∈ arguments, Ground a u) ∧ ∀ ch ∈ word, isMark ch = false := by
  have hclosed := h.closed
  cases h.inModel with
  | dictionary hkey hvalue =>
    cases happlication
    simp only [hasParameter, Bool.or_eq_false_iff] at hclosed
    refine ⟨by simp, ?_, unmarked_of_any (by decide)⟩
    intro u hu
    simp only [List.mem_cons, List.not_mem_nil, or_false] at hu
    rcases hu with rfl | rfl
    · exact ⟨hkey, hclosed.1⟩
    · exact ⟨hvalue, hclosed.2⟩
  | instantiation hc hinstantiates hlength harguments =>
    cases happlication
    refine ⟨?_, ?_, unmarked_of_isWord ha (.record hc) rfl⟩
    · rintro rfl
      exact ha.applied hc hinstantiates (List.length_eq_zero_iff.mp hlength)
    · intro u hu
      simp only [hasParameter, anyHasParameter_eq_any, List.any_eq_false, Bool.not_eq_true]
        at hclosed
      exact ⟨harguments u hu, hclosed u hu⟩
  | _ => cases happlication

/-- A type is known by the word that is applied and by what it is applied to. -/
theorem application_injective (ha : Readable a) {t t' : TypeTree} (ht : t.Over a) (ht' : t'.Over a)
    {word : List Char} {arguments : List TypeTree} (h : t.application? = some (word, arguments))
    (h' : t'.application? = some (word, arguments)) : t = t' := by
  -- The record of an instantiation has a backtick in its identity.
  have hticked {definition : TypeId} {c : ComplexType} (hc : a.get definition = .ok (.complex c))
      (hinstantiates : a.Instantiates definition) :
      (record definition c).code ≠ "Dictionary".toList.reverse := by
    intro heq
    rcases recordIdentity_cases c with ⟨hlength, -⟩ | ⟨hmem, -⟩
    · exact ha.applied hc hinstantiates (List.length_eq_zero_iff.mp hlength)
    · have hlist : (recordIdentity c).toList = "Dictionary".toList := List.reverse_injective heq
      rw [hlist] at hmem
      exact absurd hmem (by decide)
  cases ht with
  | dictionary =>
    simp only [application?, Option.some.injEq, Prod.mk.injEq] at h
    obtain ⟨hword, rfl⟩ := h
    cases ht' with
    | dictionary =>
      simp only [application?, Option.some.injEq, Prod.mk.injEq, List.cons.injEq] at h'
      obtain ⟨-, rfl, rfl, -⟩ := h'
      rfl
    | instantiation hc hinstantiates =>
      simp only [application?, Option.some.injEq, Prod.mk.injEq] at h'
      exact absurd (h'.1.trans hword.symm) (hticked hc hinstantiates)
    | _ => cases h'
  | instantiation hc hinstantiates =>
    simp only [application?, Option.some.injEq, Prod.mk.injEq] at h
    obtain ⟨hword, rfl⟩ := h
    cases ht' with
    | dictionary =>
      simp only [application?, Option.some.injEq, Prod.mk.injEq] at h'
      exact absurd (hword.trans h'.1.symm) (hticked hc hinstantiates)
    | instantiation hc' =>
      simp only [application?, Option.some.injEq, Prod.mk.injEq] at h'
      obtain ⟨hword', rfl⟩ := h'
      have heq := word_injective ha (.record hc) (.record hc') rfl rfl
        (String.toList_injective (List.reverse_injective (hword.trans hword'.symm)))
      cases heq
      rfl
    | _ => cases h'
  | _ => cases h

/-- A type without parameters is a word, or ends with one of the marks. -/
theorem Ground.cases {t : TypeTree} (h : Ground a t) :
    t.isWord = true ∨ (∃ u, t = .nullable u ∧ Ground a u) ∨ (∃ u, t = .array u ∧ Ground a u) ∨
      ∃ word arguments, t.application? = some (word, arguments) := by
  cases h.inModel with
  | primitive => exact .inl rfl
  | enum => exact .inl rfl
  | record => exact .inl rfl
  | parameter => cases h.closed
  | nullable => exact .inr (.inl ⟨_, rfl, h.nullable⟩)
  | array => exact .inr (.inr (.inl ⟨_, rfl, h.array⟩))
  | dictionary => exact .inr (.inr (.inr ⟨_, _, rfl⟩))
  | instantiation => exact .inr (.inr (.inr ⟨_, _, rfl⟩))

/-- A word ends with a character that is no mark. -/
theorem exists_code_of_isWord (ha : Readable a) {t : TypeTree} (ht : t.Over a)
    (hword : t.isWord = true) : ∃ ch rest, t.code = ch :: rest ∧ isMark ch = false := by
  obtain ⟨ch, rest, hcode⟩ := List.exists_cons_of_ne_nil (code_ne_nil_of_isWord ha ht hword)
  exact ⟨ch, rest, hcode, unmarked_of_isWord ha ht hword ch (by simp [hcode])⟩

/-- No identity ends with an opening bracket. -/
theorem Ground.exists_code (ha : Readable a) {t : TypeTree} (h : Ground a t) :
    ∃ ch rest, t.code = ch :: rest ∧ ch ≠ '[' := by
  rcases h.cases with hword | ⟨u, rfl, -⟩ | ⟨u, rfl, -⟩ | ⟨word, arguments, happlication⟩
  · obtain ⟨ch, rest, hcode, hmark⟩ := exists_code_of_isWord ha h.inModel hword
    refine ⟨ch, rest, hcode, ?_⟩
    rintro rfl
    cases hmark
  · exact ⟨_, _, code_nullable u, by decide⟩
  · exact ⟨_, _, code_array u, by decide⟩
  · exact ⟨_, _, code_of_application? happlication, by decide⟩

/-- Whatever stands before the identity of a type, the type can be read off the end of it. -/
def ReadsBack (a : Arena) (t : TypeTree) : Prop :=
  ∀ ⦃t' rest rest'⦄, Ground a t' → Ends rest → Ends rest' →
    t.code ++ rest = t'.code ++ rest' → t = t' ∧ rest = rest'

/-- A type whose identity is a word can be read off the end of a text. -/
theorem readsBack_word (ha : Readable a) {t : TypeTree} (h : Ground a t) (hword : t.isWord = true) :
    ReadsBack a t := by
  intro t' rest rest' h' hrest hrest' heq
  obtain ⟨ch, more, hcode, hmark⟩ := exists_code_of_isWord ha h.inModel hword
  rcases h'.cases with hword' | ⟨u, rfl, -⟩ | ⟨u, rfl, -⟩ | ⟨word, arguments, happlication⟩
  · obtain ⟨hcodes, hrests⟩ := word_append_inj (unmarked_of_isWord ha h.inModel hword)
      (unmarked_of_isWord ha h'.inModel hword') hrest hrest' heq
    refine ⟨word_injective ha h.inModel h'.inModel hword hword' ?_, hrests⟩
    exact String.toList_injective (List.reverse_injective hcodes)
  · rw [hcode, code_nullable] at heq
    cases (List.cons.inj heq).1
    cases hmark
  · rw [hcode, code_array] at heq
    cases (List.cons.inj heq).1
    cases hmark
  · rw [hcode, code_of_application? happlication] at heq
    cases (List.cons.inj heq).1
    cases hmark

/-- A nullable type can be read off the end if the type that may be null can. -/
theorem readsBack_nullable (ha : Readable a) {t : TypeTree} (h : ReadsBack a t) :
    ReadsBack a t.nullable := by
  intro t' rest rest' h' hrest hrest' heq
  rw [code_nullable] at heq
  rcases h'.cases with hword | ⟨u, rfl, hu⟩ | ⟨u, rfl, -⟩ | ⟨word, arguments, happlication⟩
  · obtain ⟨ch, more, hcode, hmark⟩ := exists_code_of_isWord ha h'.inModel hword
    rw [hcode] at heq
    cases (List.cons.inj heq).1
    cases hmark
  · rw [code_nullable] at heq
    obtain ⟨rfl, hrests⟩ := h hu hrest hrest' (List.cons.inj heq).2
    exact ⟨rfl, hrests⟩
  · rw [code_array] at heq
    cases (List.cons.inj heq).1
  · rw [code_of_application? happlication] at heq
    cases (List.cons.inj heq).1

/-- The end of a list is not that of an application: no argument ends with an opening bracket. -/
theorem append_ne_application (ha : Readable a) {t : TypeTree} (h : Ground a t) {word : List Char}
    {arguments : List TypeTree} (happlication : t.application? = some (word, arguments))
    {text rest : List Char} : ']' :: '[' :: text ≠ t.code ++ rest := by
  obtain ⟨hne, hground, -⟩ := h.application ha happlication
  obtain ⟨us, u, rfl⟩ : ∃ us u, arguments = us ++ [u] := by
    rcases List.eq_nil_or_concat arguments with hnil | ⟨us, u, hconcat⟩
    · exact absurd hnil hne
    · exact ⟨us, u, by simpa using hconcat⟩
  obtain ⟨ch, more, hcode, hch⟩ := (hground u (by simp)).exists_code ha
  have hcodes : ∃ more, codes (us ++ [u]) = ch :: more := by
    by_cases hnil : us = []
    · exact ⟨more, by rw [hnil, List.nil_append, codes_singleton, hcode]⟩
    · exact ⟨_, by rw [codes_concat hnil, hcode, List.cons_append]⟩
  obtain ⟨more', hcodes⟩ := hcodes
  intro heq
  rw [code_of_application? happlication, hcodes] at heq
  exact hch (List.cons.inj (List.cons.inj heq).2).1.symm

/-- An array can be read off the end if its elements can. -/
theorem readsBack_array (ha : Readable a) {t : TypeTree} (h : ReadsBack a t) :
    ReadsBack a t.array := by
  intro t' rest rest' h' hrest hrest' heq
  rw [code_array] at heq
  rcases h'.cases with hword | ⟨u, rfl, -⟩ | ⟨u, rfl, hu⟩ | ⟨word, arguments, happlication⟩
  · obtain ⟨ch, more, hcode, hmark⟩ := exists_code_of_isWord ha h'.inModel hword
    rw [hcode] at heq
    cases (List.cons.inj heq).1
    cases hmark
  · rw [code_nullable] at heq
    cases (List.cons.inj heq).1
  · rw [code_array] at heq
    obtain ⟨rfl, hrests⟩ := h hu hrest hrest' (List.cons.inj (List.cons.inj heq).2).2
    exact ⟨rfl, hrests⟩
  · exact absurd heq (append_ne_application ha h' happlication)

/-- Several types can be read off the end of their identities, up to the bracket before them. -/
theorem codes_append_inj {ts ts' : List TypeTree} (h : ∀ t ∈ ts, ReadsBack a t)
    (h' : ∀ t ∈ ts', Ground a t) (hts : ts ≠ []) (hts' : ts' ≠ []) {rest rest' : List Char}
    (heq : codes ts ++ '[' :: rest = codes ts' ++ '[' :: rest') : ts = ts' ∧ rest = rest' := by
  induction ts using List.reverseRecOn generalizing ts' with
  | nil => exact absurd rfl hts
  | append_singleton ts t ih =>
    obtain ⟨us, u, rfl⟩ : ∃ us u, ts' = us ++ [u] := by
      rcases List.eq_nil_or_concat ts' with hnil | ⟨us, u, hconcat⟩
      · exact absurd hnil hts'
      · exact ⟨us, u, by simpa using hconcat⟩
    have hlast (ts : List TypeTree) (t : TypeTree) (rest : List Char) :
        ∃ more, Ends more ∧ codes (ts ++ [t]) ++ '[' :: rest = t.code ++ more ∧
          more = if ts = [] then '[' :: rest else ',' :: (codes ts ++ '[' :: rest) := by
      by_cases hnil : ts = []
      · exact ⟨_, by simp [Ends, hnil], by simp [hnil, codes_singleton], rfl⟩
      · exact ⟨_, by simp [Ends, hnil], by simp [hnil, codes_concat hnil], rfl⟩
    obtain ⟨more, hends, hsplit, hmore⟩ := hlast ts t rest
    obtain ⟨more', hends', hsplit', hmore'⟩ := hlast us u rest'
    rw [hsplit, hsplit'] at heq
    obtain ⟨rfl, hrests⟩ := h t (by simp) (h' u (by simp)) hends hends' heq
    rw [hmore, hmore'] at hrests
    by_cases hnil : ts = [] <;> by_cases hnil' : us = [] <;>
      simp only [hnil, hnil', if_true, if_false, List.cons.injEq] at hrests
    · exact ⟨by rw [hnil, hnil'], hrests.2⟩
    · exact absurd hrests.1 (by decide)
    · exact absurd hrests.1 (by decide)
    · obtain ⟨rfl, heq'⟩ := ih (fun t ht => h t (by simp [ht])) (fun t ht => h' t (by simp [ht]))
        hnil hnil' hrests.2
      exact ⟨rfl, heq'⟩

/-- An application can be read off the end if its arguments can. -/
theorem readsBack_application (ha : Readable a) {t : TypeTree} (h : Ground a t) {word : List Char}
    {arguments : List TypeTree} (happlication : t.application? = some (word, arguments))
    (harguments : ∀ u ∈ arguments, ReadsBack a u) : ReadsBack a t := by
  intro t' rest rest' h' hrest hrest' heq
  obtain ⟨hne, hground, hword⟩ := h.application ha happlication
  rcases h'.cases with hword' | ⟨u, rfl, -⟩ | ⟨u, rfl, -⟩ | ⟨word', arguments', happlication'⟩
  · rw [code_of_application? happlication] at heq
    obtain ⟨ch, more, hcode, hmark⟩ := exists_code_of_isWord ha h'.inModel hword'
    rw [hcode] at heq
    cases (List.cons.inj heq).1
    cases hmark
  · rw [code_of_application? happlication, code_nullable] at heq
    cases (List.cons.inj heq).1
  · rw [code_array] at heq
    exact absurd heq.symm (append_ne_application ha h happlication)
  · obtain ⟨hne', hground', hword'⟩ := h'.application ha happlication'
    rw [code_of_application? happlication, code_of_application? happlication'] at heq
    simp only [List.cons_append, List.cons.injEq, true_and, List.append_assoc] at heq
    obtain ⟨rfl, hwords⟩ := codes_append_inj harguments hground' hne hne' heq
    obtain ⟨rfl, hrests⟩ := word_append_inj hword hword' hrest hrest' hwords
    exact ⟨application_injective ha h.inModel h'.inModel happlication happlication', hrests⟩

/-- Every type without parameters can be read back. -/
theorem Ground.readsBack (ha : Readable a) {t : TypeTree} (h : Ground a t) : ReadsBack a t := by
  induction t with
  | primitive kind => exact readsBack_word ha h rfl
  | enum id e => exact readsBack_word ha h rfl
  | record id c => exact readsBack_word ha h rfl
  | parameter name => cases h.closed
  | nullable inner ih => exact readsBack_nullable ha (ih h.nullable)
  | array element ih => exact readsBack_array ha (ih h.array)
  | dictionary key value ihkey ihvalue =>
    have hground := (h.application ha rfl).2.1
    apply readsBack_application ha h rfl
    simp only [List.mem_cons, List.not_mem_nil, or_false, forall_eq_or_imp, forall_eq]
    exact ⟨ihkey (hground key (by simp)), ihvalue (hground value (by simp))⟩
  | instantiation definition c arguments ih =>
    have hground := (h.application ha rfl).2.1
    exact readsBack_application ha h rfl fun u hu => ih u hu (hground u hu)

/-- In a readable model types without parameters are told apart by their identities. -/
theorem spelling_injective (ha : Readable a) {t t' : TypeTree} (ht : Ground a t) (ht' : Ground a t')
    (h : t.spelling = t'.spelling) : t = t' := by
  have hends : Ends [] := by simp [Ends]
  have hcode : t.code ++ [] = t'.code ++ [] := by rw [code, code, h]
  exact (ht.readsBack ha ht' hends hends hcode).1

end TypeTree

end Declgen.Walk
