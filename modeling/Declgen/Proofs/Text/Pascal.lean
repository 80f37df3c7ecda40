import Declgen.Proofs.Text.Kebab
import Declgen.Proofs.Text.Splitting

/-!
# Names in Pascal case

A name in Pascal case is made of the letters and digits of a name. Where the name is in ASCII, so
are they, and the first of them comes first, in uppercase. It is empty if there is none.
-/

namespace Declgen.Text

/-- All characters of a text are in ASCII. -/
def IsAscii (s : String) : Prop := ∀ c ∈ s.toList, c.toNat < 128

instance : DecidablePred IsAscii := fun s =>
  List.decidableBAll (fun c : Char => c.toNat < 128) s.toList

/-- All characters of a text are letters and digits in ASCII. -/
def IsAlphanum (s : String) : Prop := ∀ c ∈ s.toList, c.isAlphanum = true

instance : DecidablePred IsAlphanum := fun s =>
  List.decidableBAll (fun c : Char => c.isAlphanum = true) s.toList

/-- Texts of letters and digits can be put together. -/
theorem IsAlphanum.append {s t : String} (hs : IsAlphanum s) (ht : IsAlphanum t) :
    IsAlphanum (s ++ t) := by
  intro c hc
  rw [String.toList_append] at hc
  exact (List.mem_append.mp hc).elim (hs c) (ht c)

/-- They can also be joined by such a text. -/
theorem IsAlphanum.intercalate {separator : String} {parts : List String}
    (hseparator : IsAlphanum separator) (hparts : ∀ part ∈ parts, IsAlphanum part) :
    IsAlphanum (separator.intercalate parts) := by
  intro c hc
  rw [String.toList_intercalate] at hc
  rcases mem_intercalate hc with hc | ⟨cs, hcs, hc⟩
  · exact hseparator c hc
  · obtain ⟨part, hpart, rfl⟩ := List.mem_map.mp hcs
    exact hparts part hpart c hc

/-- The first letter or digit of a name. -/
def leader? (name : String) : Option Char := name.toList.find? isAlphanumeric

/-- A name has letters or digits, and a letter is the first of them. -/
def LetterFirst (name : String) : Prop := ∃ c, leader? name = some c ∧ c.isDigit = false

instance : DecidablePred LetterFirst := fun name =>
  decidable_of_iff ((leader? name).map Char.isDigit = some false) Option.map_eq_some_iff

/-! ### Characters -/

/-- A letter or digit in uppercase is one too, and a digit stays a digit. -/
theorem toUpper_alphanum {c : Char} (hascii : c.toNat < 128) (hc : c.isAlphanum = true) :
    c.toUpper.isAlphanum = true ∧ c.toUpper.isDigit = c.isDigit :=
  forall_ascii (P := fun c => c.isAlphanum = true →
    c.toUpper.isAlphanum = true ∧ c.toUpper.isDigit = c.isDigit) (by decide +kernel) hascii hc

/-! ### Stretches -/

/-- A character that is no letter and no digit is left out at the start of a name. -/
theorem pascal_cons_of_separator {c : Char} (hc : isAlphanumeric c = false) (cs : List Char) :
    pascal (c :: cs) = pascal cs := by
  rw [pascal, splitWhere, hc]
  rfl

/-- A letter or digit at the start of a name is written in uppercase. -/
theorem exists_pascal_cons {c : Char} (hc : isAlphanumeric c = true) (cs : List Char) :
    ∃ rest, pascal (c :: cs) = upperChars c ++ rest := by
  obtain ⟨first, rest, hparts⟩ :=
    List.exists_cons_of_ne_nil (splitWhere_ne_nil (!isAlphanumeric ·) cs)
  rw [pascal, splitWhere, hc, hparts]
  exact ⟨first ++ (rest.map capitalise).flatten, List.append_assoc ..⟩

/-- A stretch of letters and digits is one word. -/
theorem pascal_of_alphanumeric {cs : List Char} (h : ∀ c ∈ cs, isAlphanumeric c = true) :
    pascal cs = capitalise cs := by
  have hsplit : splitWhere (!isAlphanumeric ·) cs = [cs] := by
    induction cs with
    | nil => rfl
    | cons c cs ih =>
      rw [List.forall_mem_cons] at h
      rw [splitWhere, ih h.2, h.1]
      rfl
  rw [pascal, hsplit, List.map_singleton, List.flatten_singleton]

/-! ### Names in ASCII -/

/-- Names in ASCII have letters and digits in ASCII only. -/
theorem pascal_alphanum {cs : List Char} (hascii : ∀ c ∈ cs, c.toNat < 128) :
    ∀ c ∈ pascal cs, c.isAlphanum = true := by
  intro c hc
  rw [pascal, List.mem_flatten] at hc
  obtain ⟨word, hword, hc⟩ := hc
  obtain ⟨part, hpart, rfl⟩ := List.mem_map.mp hword
  have halphanum (ch : Char) (hch : ch ∈ part) : ch.toNat < 128 ∧ ch.isAlphanum = true := by
    obtain ⟨hp, hmem⟩ := mem_splitWhere hpart ch hch
    have hlt := hascii ch hmem
    rw [Bool.not_eq_false', isAlphanumeric_of_ascii hlt] at hp
    exact ⟨hlt, hp⟩
  cases part with
  | nil => cases hc
  | cons first rest =>
    obtain ⟨hlt, hfirst⟩ := halphanum first List.mem_cons_self
    rw [capitalise, upperChars_of_ascii hlt, List.singleton_append] at hc
    rcases List.mem_cons.mp hc with rfl | hc
    · exact (toUpper_alphanum hlt hfirst).1
    · exact (halphanum c (List.mem_cons_of_mem _ hc)).2

/-- A name in ASCII starts with its first letter or digit in uppercase. -/
theorem head?_pascal {cs : List Char} (hascii : ∀ c ∈ cs, c.toNat < 128) :
    (pascal cs).head? = (cs.find? isAlphanumeric).map Char.toUpper := by
  induction cs with
  | nil => rfl
  | cons c cs ih =>
    rw [List.forall_mem_cons] at hascii
    cases hc : isAlphanumeric c with
    | false => rw [pascal_cons_of_separator hc, ih hascii.2, List.find?_cons_of_neg (by simp [hc])]
    | true =>
      obtain ⟨rest, hrest⟩ := exists_pascal_cons hc cs
      rw [hrest, upperChars_of_ascii hascii.1, List.find?_cons_of_pos hc]
      rfl

end Declgen.Text
