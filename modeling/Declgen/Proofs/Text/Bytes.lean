import Declgen.Text.Bytes
import Mathlib.Data.List.Basic
import Mathlib.Order.Bounds.Basic

/-!
# Texts and their bytes

The bytes of a text count those of its characters. A place in a text is told by the number of bytes
before it, and of two places the one that stands further ahead has fewer of them. Bytes that are
those of another text can only be found from the start of a character on.
-/

namespace Declgen.Text

variable {cs ds es : List Char}

/-- A text without characters has no bytes. -/
@[simp] theorem byteLength_nil : byteLength [] = 0 := rfl

/-- The bytes of two texts add up. -/
@[simp] theorem byteLength_append (cs ds : List Char) :
    byteLength (cs ++ ds) = byteLength cs + byteLength ds := by
  induction cs with
  | nil => simp
  | cons c cs ih => simp [byteLength, ih, Nat.add_assoc]

/-- Every character has a byte. -/
theorem byteLength_eq_zero_iff : byteLength cs = 0 ↔ cs = [] := by
  cases cs with
  | nil => simp
  | cons c cs =>
    have hpos := Char.utf8Size_pos c
    simp only [byteLength, reduceCtorEq, iff_false]
    omega

/-- The bytes of a string are those of its characters. -/
theorem utf8ByteSize_ofList (cs : List Char) :
    (String.ofList cs).utf8ByteSize = byteLength cs := by
  induction cs with
  | nil => rfl
  | cons c cs ih =>
    rw [String.ofList_cons, String.utf8ByteSize_append, String.utf8ByteSize_singleton, ih,
      byteLength]

/-- The bytes of a string are counted as the library does. -/
theorem byteLength_toList (s : String) : byteLength s.toList = s.utf8ByteSize := by
  rw [← utf8ByteSize_ofList, String.ofList_toList]

/-! ### Places -/

/-- A beginning has no more bytes than the text. -/
theorem byteLength_mono (h : cs <+: ds) : byteLength cs ≤ byteLength ds := by
  obtain ⟨rest, rfl⟩ := h
  simp

/-- Of two beginnings of a text the one with fewer bytes is a beginning of the other. -/
theorem prefix_of_byteLength_le (hcs : cs <+: es) (hds : ds <+: es)
    (h : byteLength cs ≤ byteLength ds) : cs <+: ds := by
  rcases List.prefix_or_prefix_of_prefix hcs hds with hstarts | ⟨rest, rfl⟩
  · exact hstarts
  · have hrest : rest = [] := by
      rw [byteLength_append] at h
      exact byteLength_eq_zero_iff.mp (by omega)
    simp [hrest]

/-- A search for a beginning of a text with a property gives the one from which all others go on, or
nothing if there is none. -/
def Finds (P : List Char → Prop) : Option (List Char) → Prop
  | none => ∀ before, ¬ P before
  | some before => P before ∧ ∀ before', P before' → before <+: before'

/-- A search goes on behind the front of a text where no beginning with the property ends. -/
theorem Finds.append {P Q : List Char → Prop} {found : Option (List Char)} (h : Finds P found)
    (front : List Char) (hQ : ∀ before, Q before ↔ ∃ later, before = front ++ later ∧ P later) :
    Finds Q (found.map (front ++ ·)) := by
  cases found with
  | none =>
    intro before hbefore
    obtain ⟨later, -, hlater⟩ := (hQ before).mp hbefore
    exact h later hlater
  | some later =>
    refine ⟨(hQ _).mpr ⟨later, rfl, h.1⟩, fun before hbefore => ?_⟩
    obtain ⟨later', rfl, hlater'⟩ := (hQ before).mp hbefore
    exact (List.prefix_append_right_inj front).mpr (h.2 later' hlater')

/-- What a search gives ends at the first place where a beginning with the property does. -/
theorem Finds.isLeast {P : List Char → Prop} {before : List Char} (h : Finds P (some before)) :
    IsLeast {i | ∃ before, P before ∧ byteLength before = i} (byteLength before) := by
  refine ⟨⟨before, h.1, rfl⟩, ?_⟩
  rintro i ⟨before', hbefore', rfl⟩
  exact byteLength_mono (h.2 before' hbefore')

/-! ### Bytes in a string -/

/-- The bytes behind the first one of two texts are those of the second one. -/
theorem extract_toByteArray_append (before rest : String) (n : Nat) :
    (before ++ rest).toByteArray.extract before.utf8ByteSize (before.utf8ByteSize + n) =
      rest.toByteArray.extract 0 n := by
  rw [String.toByteArray_append, ← String.size_toByteArray]
  exact ByteArray.extract_append_size_add (i := 0)

/-- A text at the start of another one is told by its bytes. -/
theorem extract_toByteArray_zero (text after : String) :
    (text ++ after).toByteArray.extract 0 text.utf8ByteSize = text.toByteArray := by
  rw [String.toByteArray_append]
  exact ByteArray.extract_append_eq_left String.size_toByteArray.symm

variable {source text : String} {i : Nat}

/-- The bytes of a text are not found beyond the end of a source. -/
theorem le_of_extract_eq (hne : text ≠ "")
    (h : source.toByteArray.extract i (i + text.utf8ByteSize) = text.toByteArray) :
    i + text.utf8ByteSize ≤ source.utf8ByteSize := by
  have hpos : text.utf8ByteSize ≠ 0 := fun hzero => hne (String.utf8ByteSize_eq_zero_iff.mp hzero)
  have hextract := congrArg ByteArray.size h
  rw [ByteArray.size_extract, String.size_toByteArray, String.size_toByteArray] at hextract
  omega

/-- The bytes of a text are found in a source from the start of a character on. -/
theorem isValid_of_extract_eq (hne : text ≠ "")
    (h : source.toByteArray.extract i (i + text.utf8ByteSize) = text.toByteArray) :
    String.Pos.Raw.IsValid source ⟨i⟩ := by
  have hsize := le_of_extract_eq hne h
  rcases String.Pos.Raw.isValid_iff_isUTF8FirstByte.mp (String.Pos.Raw.isValid_zero (s := text))
    with hempty | ⟨hfirst, hbyte⟩
  · exact absurd (congrArg String.Pos.Raw.byteIdx hempty).symm
      fun hzero => hne (String.utf8ByteSize_eq_zero_iff.mp hzero)
  · have hpos : 0 < text.utf8ByteSize := hfirst
    have hplace : i < source.toByteArray.size := by
      rw [String.size_toByteArray]
      omega
    have hzero : 0 < text.toByteArray.size := by rwa [String.size_toByteArray]
    have hhead : source.toByteArray[i] = text.toByteArray[0] := by
      simp only [← h, ByteArray.getElem_extract, Nat.add_zero]
    refine String.Pos.Raw.isValid_iff_isUTF8FirstByte.mpr (.inr ⟨?_, ?_⟩)
    · exact String.Pos.Raw.lt_iff.mpr (by simp; omega)
    · rw [String.getUTF8Byte] at hbyte ⊢
      rwa [hhead]

/-- A text whose bytes are found in a source stands there between whole characters. -/
theorem exists_append_of_extract_eq (hne : text ≠ "")
    (h : source.toByteArray.extract i (i + text.utf8ByteSize) = text.toByteArray) :
    ∃ before after, source = before ++ text ++ after ∧ before.utf8ByteSize = i := by
  have hsize := le_of_extract_eq hne h
  obtain ⟨before, rest, rfl, hbefore⟩ :=
    String.Pos.Raw.isValid_iff_exists_append.mp (isValid_of_extract_eq hne h)
  obtain rfl : i = before.utf8ByteSize := congrArg String.Pos.Raw.byteIdx hbefore
  rw [String.utf8ByteSize_append, Nat.add_le_add_iff_left] at hsize
  rw [extract_toByteArray_append] at h
  have hend : String.Pos.Raw.IsValid rest ⟨text.utf8ByteSize⟩ :=
    String.Pos.Raw.isValid_iff_isValidUTF8_extract_zero.mpr
      ⟨String.Pos.Raw.le_iff.mpr hsize, h ▸ text.isValidUTF8⟩
  obtain ⟨start, after, rfl, hstart⟩ := String.Pos.Raw.isValid_iff_exists_append.mp hend
  have hlength : text.utf8ByteSize = start.utf8ByteSize :=
    congrArg String.Pos.Raw.byteIdx hstart
  rw [hlength, extract_toByteArray_zero, String.toByteArray_inj] at h
  exact ⟨before, after, by rw [h, String.append_assoc], rfl⟩

end Declgen.Text
