import Declgen.Proofs.Document.Loaded
import Declgen.Proofs.Types.Readable
import Declgen.Text.Alphanumeric

/-!
# Names in documents

What a document says about the names of its definitions carries over to its model. Identities can
be read back where names have no marks, and this is so where all names are plain words.
-/

namespace Declgen.Document

open Model Walk

variable {d : ModelDocument} {m : LoadedModel}

/-- The name of a definition without its namespace. -/
def Definition.name : Definition → String
  | .complex c => c.name
  | .enum e => e.name

/-- A record of the model has its name and its type parameters from a definition. -/
theorem Loaded.exists_complex (h : Loaded d m) {id : Nat} {c : ComplexType}
    (hc : m.model.get id = .ok (.complex c)) :
    ∃ c', .complex c' ∈ d.definitions ∧ c'.name = c.name ∧ c'.typeParams = c.typeParams := by
  obtain ⟨definition, hget, hdescribes⟩ := h.definition hc rfl
  have hmem := List.mem_of_getElem? hget
  cases definition with
  | complex c' => exact ⟨c', hmem, hdescribes.1.symm, hdescribes.2.2.symm⟩
  | enum e => exact False.elim hdescribes

/-- An enumeration of the model is one of the document. -/
theorem Loaded.mem_of_enum (h : Loaded d m) {id : Nat} {e : EnumType}
    (he : m.model.get id = .ok (.enum e)) : .enum e ∈ d.definitions := by
  obtain ⟨definition, hget, hdescribes⟩ := h.definition he rfl
  have hmem := List.mem_of_getElem? hget
  cases definition with
  | complex c => exact False.elim hdescribes
  | enum e' =>
    cases hdescribes
    exact hmem

/-- No definition of a document without backticks in its names has one in the model. -/
theorem noBacktick_of_loaded (h : Loaded d m)
    (hticks : ∀ definition ∈ d.definitions, '\x60' ∉ definition.qualifiedName.toList) :
    NoBacktick m.model := by
  intro id type name htype hname
  obtain ⟨definition, hget, hdescribes⟩ := h.definition htype hname
  rw [hdescribes.qualifiedName?] at hname
  cases hname
  exact hticks definition (List.mem_of_getElem? hget)

/-- A document whose names can be told from everything else in an identity, and in which every
generic expression has an argument. -/
structure ReadableDocument (d : ModelDocument) : Prop where
  /-- All names are readable. -/
  names : ∀ definition ∈ d.definitions, IsReadable definition.qualifiedName
  /-- No generic expression is without arguments. -/
  applied : ∀ definition ∈ d.definitions, 0 ∉ definition.counts

/-- The model of a readable document is readable. -/
theorem ReadableDocument.model (hd : ReadableDocument d) (h : Loaded d m) : Readable m.model where
  distinct := h.namesDistinct
  names id type name htype hname := by
    obtain ⟨definition, hget, hdescribes⟩ := h.definition htype hname
    rw [hdescribes.qualifiedName?] at hname
    cases hname
    exact hd.names definition (List.mem_of_getElem? hget)
  applied definition c hc hinstantiates := by
    obtain ⟨id, arguments, hget⟩ := hinstantiates
    obtain ⟨-, -, -, c', hc', hlength⟩ := h.wellFormed.fits hget
    cases hc.symm.trans hc'
    obtain ⟨other, hother, hcount⟩ := h.counted id definition arguments hget
    rintro hnone
    rw [← hlength, hnone] at hcount
    exact hd.applied other hother hcount

/-- A letter, a digit, an underscore or a dot. -/
def isPlain (ch : Char) : Bool := Text.isAlphanumeric ch || ch == '_' || ch == '.'

/-- A document whose names are words of letters, digits, underscores and dots that name no primitive
type. No record has two parameters of one name, and every generic expression has an argument. -/
structure PlainDocument (d : ModelDocument) : Prop where
  /-- No name is empty. -/
  nonempty : ∀ definition ∈ d.definitions, definition.qualifiedName ≠ ""
  /-- All characters of names are plain. -/
  characters : ∀ definition ∈ d.definitions, definition.qualifiedName.toList.all isPlain = true
  /-- No name is that of a primitive type. -/
  unlike : ∀ definition ∈ d.definitions, ∀ kind : Primitive, definition.qualifiedName ≠ kind.name
  /-- The parameters of a record differ. -/
  parameters : ∀ c, .complex c ∈ d.definitions → c.typeParams.Nodup
  /-- No generic expression is without arguments. -/
  applied : ∀ definition ∈ d.definitions, 0 ∉ definition.counts

/-- A plain document is readable. -/
theorem PlainDocument.readable (hd : PlainDocument d) : ReadableDocument d where
  names definition hdefinition := by
    have hcharacters := List.all_eq_true.mp (hd.characters definition hdefinition)
    refine ⟨hd.nonempty definition hdefinition, ?_, ?_, hd.unlike definition hdefinition⟩
    · intro ch hch
      by_contra hmark
      simp only [isMark, Bool.not_eq_false, Bool.or_eq_true, beq_iff_eq] at hmark
      have hplain := hcharacters ch hch
      rcases hmark with ((rfl | rfl) | rfl) | rfl <;> exact absurd hplain (by decide)
    · intro htick
      exact absurd (hcharacters '\x60' htick) (by decide)
  applied := hd.applied

end Declgen.Document
