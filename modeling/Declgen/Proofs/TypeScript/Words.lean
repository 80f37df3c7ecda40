import Declgen.Proofs.Text.Kebab
import Declgen.Proofs.Text.Scanning
import Declgen.TypeScript.Render

/-!
# Words

Keywords, names and numbers are written as words: without blanks, quotes or punctuation. A word
tells what it stands for. A name is not a keyword if it is not reserved, and a number does not start
like a name.
-/

namespace Declgen.TypeScript

open Text

/-- Whether a character can be part of a word. -/
def isWord (c : Char) : Bool := isIdentifierRest c || c == '-'

/-- What may go on an identifier may be part of a word. -/
theorem isWord_of_isIdentifierRest {c : Char} (h : isIdentifierRest c = true) :
    isWord c = true := by
  rw [isWord, h, Bool.true_or]

/-- What may start an identifier may go on it. -/
theorem isIdentifierRest_of_isIdentifierStart {c : Char} (h : isIdentifierStart c = true) :
    isIdentifierRest c = true := by
  simp only [isIdentifierStart, isIdentifierRest, Char.isAlphanum, Bool.or_eq_true] at h ⊢
  rcases h with (h | h) | h
  · exact .inl (.inl (.inl h))
  · exact .inl (.inr h)
  · exact .inr h

/-- A character of a word is plain. -/
theorem isPlain_of_isWord {c : Char} (h : isWord c = true) : isPlain c = true := by
  simp only [isPlain, Bool.and_eq_true, bne_iff_ne]
  refine ⟨⟨⟨?_, ?_⟩, ?_⟩, ?_⟩ <;>
  · rintro rfl
    exact absurd h (by decide)

/-- A word quotes nothing. -/
theorem code_of_all_isWord {cs : List Char} (h : cs.all isWord = true) : Code [] cs :=
  .of_all (List.all_eq_true.mpr fun c hc => isPlain_of_isWord (List.all_eq_true.mp h c hc))

/-- An identifier is a word that does not start with a digit or a sign. -/
theorem exists_of_isIdentifier {s : String} (h : isIdentifier s = true) :
    ∃ c cs, s.toList = c :: cs ∧ isIdentifierStart c = true ∧ s.toList.all isWord = true := by
  unfold isIdentifier at h
  cases hs : s.toList with
  | nil =>
    rw [hs] at h
    cases h
  | cons c cs =>
    simp only [hs, Bool.and_eq_true] at h
    refine ⟨c, cs, rfl, h.1, ?_⟩
    rw [List.all_cons, isWord_of_isIdentifierRest (isIdentifierRest_of_isIdentifierStart h.1),
      Bool.true_and, List.all_eq_true]
    exact fun d hd => isWord_of_isIdentifierRest (List.all_eq_true.mp h.2 d hd)

/-- An identifier is a word. -/
theorem all_isWord_of_isIdentifier {s : String} (h : isIdentifier s = true) :
    s.toList.all isWord = true := by
  obtain ⟨-, -, -, -, hword⟩ := exists_of_isIdentifier h
  exact hword

/-- A keyword is a word. -/
theorem all_isWord_keyword (k : Keyword) : k.word.toList.all isWord = true := by
  cases k <;> decide

/-- A digit is part of a word, but no identifier starts with it. -/
theorem isWord_of_isDigit {c : Char} (h : c.isDigit = true) :
    isWord c = true ∧ isIdentifierStart c = false :=
  forall_ascii (P := fun c => c.isDigit = true → isWord c = true ∧ isIdentifierStart c = false)
    (by decide +kernel) (toNat_lt_of_isAlphanum (by simp [Char.isAlphanum, h])) h

/-- A number is a word that starts with a digit or a sign. -/
theorem exists_of_number (n : Int) :
    ∃ c cs, (toString n).toList = c :: cs ∧ isIdentifierStart c = false ∧
      (toString n).toList.all isWord = true := by
  have hdigits (m : Nat) : ∃ c cs, m.repr.toList = c :: cs ∧ isIdentifierStart c = false ∧
      m.repr.toList.all isWord = true := by
    rw [Nat.toList_repr]
    have hdigit {c : Char} (hc : c ∈ Nat.toDigits 10 m) :=
      isWord_of_isDigit (Nat.isDigit_of_mem_toDigits (by decide) (by decide) hc)
    obtain ⟨c, cs, hcs⟩ := List.exists_cons_of_ne_nil (@Nat.toDigits_ne_nil m 10)
    exact ⟨c, cs, hcs, (hdigit (hcs ▸ List.mem_cons_self)).2,
      List.all_eq_true.mpr fun d hd => (hdigit hd).1⟩
  rw [Int.toString_eq_repr, Int.repr_eq_if]
  split
  · exact hdigits _
  · obtain ⟨c, cs, hcs, -, hword⟩ := hdigits (-n).toNat
    refine ⟨'-', c :: cs, ?_, by decide, ?_⟩
    · rw [String.toList_append, hcs]
      rfl
    · rw [String.toList_append, List.all_append, hword]
      rfl

/-- The number that a word stands for. -/
def wordNumber : List Char → Int
  | '-' :: digits => -Nat.ofDigitChars 10 digits 0
  | digits => Nat.ofDigitChars 10 digits 0

/-- A number can be read back from its digits. -/
theorem wordNumber_toString (n : Int) : wordNumber (toString n).toList = n := by
  have hdigits (m : Nat) : Nat.ofDigitChars 10 m.repr.toList 0 = m := by
    rw [Nat.toList_repr, Nat.ofDigitChars_toDigits (by decide) (by decide)]
  rw [Int.toString_eq_repr, Int.repr_eq_if]
  split
  · -- No digit is taken for a sign.
    have hsign : ∀ digits, n.toNat.repr.toList ≠ '-' :: digits := by
      intro digits heq
      have hmem : '-' ∈ Nat.toDigits 10 n.toNat := by
        rw [← Nat.toList_repr, heq]
        exact List.mem_cons_self
      exact absurd (Nat.isDigit_of_mem_toDigits (by decide) (by decide) hmem) (by decide)
    rw [wordNumber.eq_2 _ hsign, hdigits]
    omega
  · have hminus : "-".toList = ['-'] := by decide
    rw [String.toList_append, hminus, List.singleton_append, wordNumber, hdigits]
    omega

/-! ### Keywords and names -/

/-- The keyword that a word is. -/
def keyword? (word : String) : Option Keyword :=
  [.number, .string, .boolean, .null, .undefined, .unknown, .never].find? fun k =>
    k.word == word

/-- The word of a keyword is known as the keyword. -/
theorem keyword?_word (k : Keyword) : keyword? k.word = some k := by
  cases k <;> decide

/-- A keyword that a word is consists of this word. -/
theorem word_of_keyword? {word : String} {k : Keyword} (h : keyword? word = some k) :
    k.word = word := by
  simpa using List.find?_some h

/-- A name that is not reserved is no keyword. -/
theorem keyword?_of_not_reserved {name : String} (h : isReserved name = false) :
    keyword? name = none := by
  refine Option.eq_none_iff_forall_ne_some.mpr fun k hk => ?_
  have hreserved : ∀ k : Keyword, isReserved k.word = true := by
    intro k
    cases k <;> decide
  rw [← word_of_keyword? hk, hreserved] at h
  cases h

/-- A number is no keyword. -/
theorem keyword?_number (n : Int) : keyword? (toString n) = none := by
  refine Option.eq_none_iff_forall_ne_some.mpr fun k hk => ?_
  obtain ⟨c, cs, hcs, hstart, -⟩ := exists_of_number n
  have hword : k.word.toList.head?.any isIdentifierStart = true := by cases k <;> decide
  rw [word_of_keyword? hk, hcs] at hword
  rw [List.head?_cons, Option.any_some, hstart] at hword
  cases hword

end Declgen.TypeScript
