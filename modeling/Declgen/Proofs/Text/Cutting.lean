import Declgen.Proofs.Text.Humps

/-!
# Cutting texts into words

The words of a text can be found by a loop over its places that looks one place back and one place
ahead. It never looks outside of the text, and no letter and no digit gets lost. In kebab case the
words stand in lowercase with one hyphen between them, and a text that is in kebab case already has
nothing left to be changed.
-/

namespace Declgen.Text

/-! ### Place by place -/

/-- How far a text has been cut. -/
structure Cut where
  /-- The words that are complete. -/
  found : List (List Char)
  /-- The word that goes on. It is empty where no word does. -/
  current : List Char

namespace Cut

/-- All words, if the one that goes on ends here. -/
def close (cut : Cut) : List (List Char) :=
  if cut.current.isEmpty then cut.found else cut.found ++ [cut.current]

/-- The character before a place. There is none before the first one. -/
def before? (cs : List Char) : Nat → Option Char
  | 0 => none
  | i + 1 => cs[i]?

/-- Goes on by the character at a place. This fails if a character is looked for where the text has
none; only after the last place there may be nothing. -/
def step (cs : List Char) (cut : Cut) (i : Nat) : Option Cut := do
  let c ← cs[i]?
  if !isAlphanumeric c then
    some ⟨cut.close, []⟩
  else if isUppercase c && !cut.current.isEmpty then
    let previous ← before? cs i
    if startsHump previous cs[i + 1]? then some ⟨cut.close, [c]⟩
    else some ⟨cut.found, cut.current ++ [c]⟩
  else some ⟨cut.found, cut.current ++ [c]⟩

end Cut

/-- The words of a text, found place by place, unless a place outside of it was looked at. -/
def wordsByPlace (cs : List Char) : Option (List (List Char)) :=
  ((List.range cs.length).foldlM (Cut.step cs) ⟨[], []⟩).map Cut.close

/-- The last character of the word that goes on stands at the last place. -/
def Cut.Reaches (cut : Cut) (before : List Char) : Prop :=
  cut.current ≠ [] → before.getLast? = cut.current.getLast?

section Places

variable {cs before rest : List Char} {c : Char} {cut : Cut}

/-- What stands before a place is the last character of what has been read. -/
theorem Cut.before?_length (before rest : List Char) :
    Cut.before? (before ++ rest) before.length = before.getLast? := by
  cases before using List.reverseRecOn with
  | nil => rfl
  | append_singleton before c => simp [Cut.before?]

/-- One step reads one character, and it looks at places of the text only. -/
theorem Cut.exists_step (h : cut.Reaches before) (c : Char) (rest : List Char) :
    ∃ next : Cut, cut.step (before ++ c :: rest) before.length = some next ∧
      next.Reaches (before ++ [c]) ∧
      next.found ++ wordsFrom next.current.reverse rest =
        cut.found ++ wordsFrom cut.current.reverse (c :: rest) := by
  have hplace : (before ++ c :: rest)[before.length]? = some c := by simp
  have hahead : (before ++ c :: rest)[before.length + 1]? = rest.head? := by
    rw [List.getElem?_append_right (by omega), Nat.add_sub_cancel_left, List.getElem?_cons_succ,
      List.head?_eq_getElem?]
  have hbehind := Cut.before?_length before (c :: rest)
  obtain ⟨found, current⟩ := cut
  rw [Cut.step, hplace, hahead, hbehind]
  -- The word that goes on is read from its end, as the recursion keeps it.
  cases current using List.reverseRecOn with
  | nil =>
    cases hc : isAlphanumeric c with
    | false =>
      refine ⟨⟨found, []⟩, by simp [hc, Cut.close], by simp [Cut.Reaches], ?_⟩
      simp [wordsFrom, hc]
    | true =>
      refine ⟨⟨found, [c]⟩, by simp [hc], by simp [Cut.Reaches], ?_⟩
      simp [wordsFrom, hc]
  | append_singleton earlier previous =>
    have hlast : before.getLast? = some previous := by
      rw [h (by simp), List.getLast?_concat]
    cases hc : isAlphanumeric c with
    | false =>
      refine ⟨⟨found ++ [earlier ++ [previous]], []⟩, by simp [hc, Cut.close],
        by simp [Cut.Reaches], ?_⟩
      simp [wordsFrom, hc]
    | true =>
      cases hhump : isUppercase c && startsHump previous rest.head? with
      | false =>
        refine ⟨⟨found, earlier ++ [previous, c]⟩, ?_, by simp [Cut.Reaches], ?_⟩
        · cases hupper : isUppercase c with
          | false => simp [hc, hupper]
          | true =>
            rw [hupper, Bool.true_and] at hhump
            simp [hc, hlast, hhump]
        · simp [wordsFrom, hc, hhump]
      | true =>
        refine ⟨⟨found ++ [earlier ++ [previous]], [c]⟩, ?_, by simp [Cut.Reaches], ?_⟩
        · rw [Bool.and_eq_true] at hhump
          simp [hc, hhump.1, hhump.2, hlast, Cut.close]
        · simp [wordsFrom, hc, hhump]

/-- The steps over the rest of a text find the words that are left. -/
theorem Cut.foldlM_step (h : cut.Reaches before) (rest : List Char) :
    ((List.range' before.length rest.length).foldlM (Cut.step (before ++ rest)) cut).map Cut.close =
      some (cut.found ++ wordsFrom cut.current.reverse rest) := by
  induction rest generalizing before cut with
  | nil =>
    rw [List.length_nil, List.range'_zero, List.foldlM_nil]
    cases hcurrent : cut.current using List.reverseRecOn with
    | nil => simp [Cut.close, hcurrent, wordsFrom]
    | append_singleton earlier previous => simp [Cut.close, hcurrent, wordsFrom]
  | cons c rest ih =>
    obtain ⟨next, hstep, hreaches, hwords⟩ := Cut.exists_step h c rest
    have hrest := ih hreaches
    rw [List.length_append, List.length_singleton, List.append_assoc,
      List.singleton_append] at hrest
    rw [List.length_cons, List.range'_succ, List.foldlM_cons, hstep, ← hwords]
    exact hrest

/-- The loop finds the words and looks at no place outside of the text. -/
theorem wordsByPlace_eq (cs : List Char) : wordsByPlace cs = some (words cs) := by
  have hstart : (Cut.mk [] []).Reaches [] := fun h => absurd rfl h
  have hfold := Cut.foldlM_step hstart cs
  rw [List.length_nil, ← List.range_eq_range', List.nil_append] at hfold
  exact hfold

end Places

/-! ### Words with hyphens between them -/

/-- Lowercase letters and digits of ASCII. -/
def isKebabChar (c : Char) : Bool := c.isLower || c.isDigit

/-- A text consists of words of lowercase letters and digits with one hyphen between each two. -/
def IsKebab (cs : List Char) : Prop :=
  ∃ parts : List (List Char), cs = ['-'].intercalate parts ∧
    ∀ part ∈ parts, part ≠ [] ∧ ∀ c ∈ part, isKebabChar c = true

section Kebab

variable {cs part rest current : List Char} {parts : List (List Char)} {c : Char}

/-- Characters of kebab case are letters or digits. -/
theorem isAlphanum_of_isKebabChar (h : isKebabChar c = true) : c.isAlphanum = true := by
  rw [isKebabChar, Bool.or_eq_true] at h
  rcases h with h | h <;> simp [Char.isAlphanum, Char.isAlpha, h]

/-- None of them is a capital. -/
theorem isUpper_of_isKebabChar (h : isKebabChar c = true) : c.isUpper = false :=
  forall_ascii (P := fun c => isKebabChar c = true → c.isUpper = false) (by decide +kernel)
    (toNat_lt_of_isAlphanum (isAlphanum_of_isKebabChar h)) h

/-- The lowercase form of a letter or digit. -/
theorem isKebabChar_toLower (h : c.isAlphanum = true) : isKebabChar c.toLower = true :=
  forall_ascii (P := fun c => c.isAlphanum = true → isKebabChar c.toLower = true)
    (by decide +kernel) (toNat_lt_of_isAlphanum h) h

/-- A word without capitals is not cut. -/
theorem wordsFrom_append (h : ∀ c ∈ part, isKebabChar c = true) :
    wordsFrom current (part ++ rest) = wordsFrom (part.reverse ++ current) rest := by
  induction part generalizing current with
  | nil => rfl
  | cons c part ih =>
    rw [List.forall_mem_cons] at h
    have halphanum := isAlphanum_of_isKebabChar h.1
    have hascii := toNat_lt_of_isAlphanum halphanum
    have hin : isAlphanumeric c = true := (isAlphanumeric_of_ascii hascii).trans halphanum
    have hupper : isUppercase c = false :=
      (isUppercase_of_ascii hascii).trans (isUpper_of_isKebabChar h.1)
    rw [List.reverse_cons, List.append_assoc, List.singleton_append, ← ih h.2, List.cons_append]
    cases current with
    | nil => simp [wordsFrom, hin]
    | cons previous earlier => simp [wordsFrom, hin, hupper]

/-- Words in lowercase with hyphens between them are cut into these words. -/
theorem words_intercalate (h : ∀ part ∈ parts, part ≠ [] ∧ ∀ c ∈ part, isKebabChar c = true) :
    words (['-'].intercalate parts) = parts := by
  induction parts with
  | nil => rfl
  | cons part parts ih =>
    rw [List.forall_mem_cons] at h
    obtain ⟨⟨hne, hpart⟩, hparts⟩ := h
    obtain ⟨previous, earlier, hreverse⟩ :=
      List.exists_cons_of_ne_nil (List.reverse_ne_nil_iff.mpr hne)
    have hback : (previous :: earlier).reverse = part := by rw [← hreverse, List.reverse_reverse]
    rw [words]
    cases parts with
    | nil =>
      have hsplit : wordsFrom [] (part ++ []) = wordsFrom (part.reverse ++ []) [] :=
        wordsFrom_append hpart
      rw [List.append_nil, List.append_nil, hreverse] at hsplit
      rw [List.intercalate_singleton, hsplit, wordsFrom, hback]
      exact List.cons_ne_nil _ _
    | cons second parts =>
      have hhyphen : isAlphanumeric '-' = false := by decide +kernel
      rw [List.intercalate_cons_cons, List.append_assoc, wordsFrom_append hpart, List.append_nil,
        hreverse, List.singleton_append, wordsFrom, hhyphen, Bool.not_false, if_pos rfl, hback]
      exact congrArg _ (ih hparts)

/-- Without its hyphens a text consists of its words. -/
theorem filter_intercalate (h : ∀ part ∈ parts, '-' ∉ part) :
    (['-'].intercalate parts).filter (· != '-') = parts.flatten := by
  have hself {part : List Char} (hpart : '-' ∉ part) : part.filter (· != '-') = part := by
    apply List.filter_eq_self.mpr
    intro c hc
    rw [bne_iff_ne]
    rintro rfl
    exact hpart hc
  induction parts with
  | nil => rfl
  | cons part parts ih =>
    rw [List.forall_mem_cons] at h
    cases parts with
    | nil => simp [hself h.1]
    | cons second parts =>
      rw [List.intercalate_cons_cons, List.filter_append, List.filter_append, hself h.1, ih h.2,
        List.flatten_cons]
      simp

/-- A text in kebab case stays as it is. -/
theorem kebab_of_isKebab (h : IsKebab cs) : kebab cs = cs := by
  obtain ⟨parts, rfl, hparts⟩ := h
  rw [kebab, words_intercalate hparts]
  congr 1
  refine (List.map_congr_left fun part hpart => ?_).trans (List.map_id parts)
  have hchars := (hparts part hpart).2
  rw [lower_of_ascii fun c hc => toNat_lt_of_isAlphanum (isAlphanum_of_isKebabChar (hchars c hc))]
  refine (List.map_congr_left fun c hc => ?_).trans (List.map_id part)
  exact Char.toLower_eq_of_not_isUpper (by simp [isUpper_of_isKebabChar (hchars c hc)])

end Kebab

/-! ### Texts in ASCII -/

section Ascii

variable {cs : List Char} (hascii : ∀ c ∈ cs, c.toNat < 128)
include hascii

/-- A word of a text in ASCII consists of letters and digits. -/
theorem isAlphanum_of_mem_words {word : List Char} (hword : word ∈ words cs) :
    ∀ c ∈ word, c.isAlphanum = true := by
  intro c hc
  have hmem : c ∈ (words cs).flatten := List.mem_flatten_of_mem hword hc
  rw [words, flatten_wordsFrom, List.reverse_nil, List.nil_append, List.mem_filter] at hmem
  rw [← isAlphanumeric_of_ascii (hascii c hmem.1), hmem.2]

/-- The words of a text in ASCII are put into lowercase character by character. -/
theorem map_lower_words :
    (words cs).map lower = (words cs).map fun word => word.map Char.toLower :=
  List.map_congr_left fun _ hword => lower_of_ascii fun c hc =>
    toNat_lt_of_isAlphanum (isAlphanum_of_mem_words hascii hword c hc)

/-- The words of a text in ASCII in lowercase. -/
theorem isKebabChar_of_mem_map {part : List Char} (hpart : part ∈ (words cs).map lower) :
    part ≠ [] ∧ ∀ c ∈ part, isKebabChar c = true := by
  rw [map_lower_words hascii] at hpart
  obtain ⟨word, hword, rfl⟩ := List.mem_map.mp hpart
  constructor
  · intro hnil
    exact (mem_wordsFrom rfl hword).1 (List.map_eq_nil_iff.mp hnil)
  · intro c hc
    obtain ⟨ch, hch, rfl⟩ := List.mem_map.mp hc
    exact isKebabChar_toLower (isAlphanum_of_mem_words hascii hword ch hch)

/-- Kebab case gives words joined by hyphens. -/
theorem isKebab_kebab : IsKebab (kebab cs) :=
  ⟨(words cs).map lower, rfl, fun _ => isKebabChar_of_mem_map hascii⟩

/-- Without its hyphens a text in kebab case consists of the letters and digits in lowercase. -/
theorem filter_kebab :
    (kebab cs).filter (· != '-') = (cs.filter isAlphanumeric).map Char.toLower := by
  have hhyphen : ∀ part ∈ (words cs).map lower, '-' ∉ part := fun part hpart hmem =>
    absurd ((isKebabChar_of_mem_map hascii hpart).2 _ hmem) (by decide)
  rw [kebab, filter_intercalate hhyphen, map_lower_words hascii, ← List.map_flatten, words,
    flatten_wordsFrom, List.reverse_nil, List.nil_append]

end Ascii

/-- The words of a text are found by looking at its places only. None of them is empty, and one
after the other they are the letters and digits of the text. So a text in ASCII consists, in kebab
case, of words of lowercase letters and digits with one hyphen between them. These are its words in
lowercase, without the hyphens it is made of its letters and digits in lowercase, and it stays as it
is from then on. -/
theorem words_complete (cs : List Char) :
    wordsByPlace cs = some (words cs) ∧
    (words cs).flatten = cs.filter isAlphanumeric ∧
    (∀ word ∈ words cs, word ≠ []) ∧
    ((∀ c ∈ cs, c.toNat < 128) →
      IsKebab (kebab cs) ∧
      words (kebab cs) = (words cs).map (fun word => word.map Char.toLower) ∧
      (kebab cs).filter (· != '-') = (cs.filter isAlphanumeric).map Char.toLower ∧
      kebab (kebab cs) = kebab cs) := by
  have hflatten : (words cs).flatten = cs.filter isAlphanumeric := flatten_wordsFrom [] cs
  refine ⟨wordsByPlace_eq cs, hflatten, fun word hword => (mem_wordsFrom rfl hword).1, ?_⟩
  intro hascii
  have hkebab := isKebab_kebab hascii
  refine ⟨hkebab, ?_, filter_kebab hascii, kebab_of_isKebab hkebab⟩
  rw [kebab, words_intercalate fun _ => isKebabChar_of_mem_map hascii, map_lower_words hascii]

/-- The words of `HTTPServer_v2` are cut at the last capital and at the underscore. -/
theorem words_complete_httpServer :
    (∀ c ∈ "HTTPServer_v2".toList, c.toNat < 128) ∧
      wordsByPlace "HTTPServer_v2".toList = some ["HTTP".toList, "Server".toList, "v2".toList] ∧
      words (kebab "HTTPServer_v2".toList) = ["http".toList, "server".toList, "v2".toList] ∧
      (kebab "HTTPServer_v2".toList).filter (· != '-') = "httpserverv2".toList ∧
      kebab (kebab "HTTPServer_v2".toList) = "http-server-v2".toList := by
  have hascii : ∀ c ∈ "HTTPServer_v2".toList, c.toNat < 128 := by simp
  obtain ⟨hplace, -, -, hkebab⟩ := words_complete "HTTPServer_v2".toList
  obtain ⟨-, hwords, hfilter, hagain⟩ := hkebab hascii
  exact ⟨hascii, hplace.trans (by decide +kernel), hwords.trans (by decide +kernel),
    hfilter.trans (by decide +kernel), hagain.trans (by decide +kernel)⟩

end Declgen.Text
