import Declgen.Proofs.Text.Camel

/-!
# Reading names in kebab case

A name in Pascal case can be read back from its kebab case if a capital stands only where a word
starts. This is so if every capital behind another capital has a lowercase letter behind it, as in
`XOfOrder`. Otherwise different names can be the same in kebab case, like `HTTPServer` and
`HttpServer`.
-/

namespace Declgen.Text

/-- Every capital behind a capital has a lowercase letter behind it. -/
def isHumped : List Char → Bool
  | first :: second :: rest =>
    (!(first.isUpper && second.isUpper) || rest.head?.any Char.isLower) && isHumped (second :: rest)
  | _ => true

/-- Two names with humps are one if the capital that the second one starts with does not follow a
capital or has a lowercase letter behind it. -/
theorem isHumped_append {as bs : List Char} (has : isHumped as = true) (hbs : isHumped bs = true)
    (hjoint : as.getLast?.any Char.isUpper = false ∨ bs[1]?.any Char.isLower = true) :
    isHumped (as ++ bs) = true := by
  induction as with
  | nil => exact hbs
  | cons first as ih =>
    cases as with
    | nil =>
      cases bs with
      | nil => rfl
      | cons second rest =>
        have hcapitals :
            (!(first.isUpper && second.isUpper) || rest.head?.any Char.isLower) = true := by
          rcases hjoint with hfirst | hthird
          · have hfirst : first.isUpper = false := hfirst
            simp [hfirst]
          · have hthird : rest.head?.any Char.isLower = true := by
              rwa [List.getElem?_cons_succ, ← List.head?_eq_getElem?] at hthird
            simp [hthird]
        rw [List.singleton_append, isHumped, hcapitals, hbs]
        rfl
    | cons second rest =>
      rw [isHumped, Bool.and_eq_true] at has
      have hrest := ih has.2 (by rwa [List.getLast?_cons_cons] at hjoint)
      have hcapitals : (!(first.isUpper && second.isUpper) ||
          (rest ++ bs).head?.any Char.isLower) = true := by
        cases rest with
        | nil =>
          have hpair := has.1
          rw [List.head?_nil, Option.any_none, Bool.or_false] at hpair
          rw [hpair, Bool.true_or]
        | cons third rest => exact has.1
      rw [List.cons_append, List.cons_append, isHumped, hcapitals]
      exact hrest

/-! ### Words -/

/-- On ASCII, a text is put into lowercase character by character. -/
theorem lower_of_ascii {cs : List Char} (h : ∀ c ∈ cs, c.toNat < 128) :
    lower cs = cs.map Char.toLower := by
  suffices hfrom : ∀ before, lowerFrom before cs = cs.map Char.toLower from hfrom []
  induction cs with
  | nil => exact fun before => rfl
  | cons c cs ih =>
    intro before
    rw [List.forall_mem_cons] at h
    have hsigma : c ≠ 'Σ' := by
      rintro rfl
      exact absurd h.1 (by decide)
    rw [lowerFrom, if_neg hsigma, lowerChars_of_ascii h.1, ih h.2]
    rfl

/-- A word that starts with no lowercase letter and has no capital after its start. -/
structure IsHump (word : List Char) : Prop where
  /-- It starts with another character than a lowercase letter. -/
  head : ∃ c, word.head? = some c ∧ c.isLower = false
  /-- The other characters are no capitals. -/
  tail : ∀ c ∈ word.tail, c.isUpper = false

/-- Such a word can be read back from its lowercase form. -/
theorem IsHump.capitalise_lower {word : List Char} (h : IsHump word)
    (halphanum : ∀ c ∈ word, c.isAlphanum = true) : capitalise (lower word) = word := by
  obtain ⟨c, hhead, hc⟩ := h.head
  cases word with
  | nil => cases hhead
  | cons first rest =>
    obtain rfl := Option.some.inj hhead
    have hascii : ∀ ch ∈ first :: rest, ch.toNat < 128 := fun ch hch =>
      toNat_lt_of_isAlphanum (halphanum ch hch)
    rw [List.forall_mem_cons] at halphanum
    have hrest : rest.map Char.toLower = rest := by
      refine (List.map_congr_left fun ch hch => ?_).trans (List.map_id rest)
      exact Char.toLower_eq_of_not_isUpper (by simp [h.tail ch hch])
    rw [lower_of_ascii hascii, List.map_cons, hrest,
      capitalise_of_ascii (toNat_lt_of_isAlphanum (toLower_alphanum halphanum.1)),
      Char.toUpper_toLower_eq_toUpper, Char.toUpper_eq_of_not_isLower (by simp [hc])]

/-- A word goes on with whatever is no capital. -/
theorem IsHump.concat {word : List Char} (h : IsHump word) {c : Char} (hc : c.isUpper = false) :
    IsHump (word ++ [c]) := by
  obtain ⟨⟨first, hhead, hfirst⟩, htail⟩ := h
  cases word with
  | nil => cases hhead
  | cons first' rest =>
    refine ⟨⟨first, hhead, hfirst⟩, ?_⟩
    rw [List.cons_append, List.tail_cons, List.forall_mem_append]
    exact ⟨htail, List.forall_mem_singleton.mpr hc⟩

/-- A capital in a name with humps starts a word. -/
theorem startsHump_of_isHumped {previous c : Char} {rest : List Char}
    (halphanum : ∀ ch ∈ previous :: c :: rest, ch.isAlphanum = true)
    (hhumped : isHumped (previous :: c :: rest) = true) (hc : c.isUpper = true) :
    startsHump previous rest.head? = true := by
  obtain ⟨hprevious, hrest⟩ := List.forall_mem_cons.mp halphanum
  have hascii := toNat_lt_of_isAlphanum hprevious
  rw [startsHump, isLowercase_of_ascii hascii, isUppercase_of_ascii hascii]
  cases hupper : previous.isUpper with
  | false =>
    have hother : (previous.isLower || previous.isDigit) = true := by
      rwa [Char.isAlphanum, Char.isAlpha, hupper, Bool.false_or] at hprevious
    simp [hother]
  | true =>
    rw [isHumped, hupper, hc, Bool.and_eq_true] at hhumped
    cases rest with
    | nil => simp at hhumped
    | cons next rest =>
      have hnext : next.isLower = true := by simpa using hhumped.1
      have hnextAscii := toNat_lt_of_isAlphanum (hrest next (by simp))
      simp [isLowercase_of_ascii hnextAscii, hnext]

/-- The words of a name with humps start where its capitals are. -/
theorem isHump_of_mem_wordsFrom {previous : Char} {earlier cs word : List Char}
    (hcs : ∀ c ∈ previous :: cs, c.isAlphanum = true)
    (hhumped : isHumped (previous :: cs) = true) (hword : IsHump (previous :: earlier).reverse)
    (h : word ∈ wordsFrom (previous :: earlier) cs) : IsHump word := by
  induction cs generalizing previous earlier with
  | nil =>
    rw [List.mem_singleton.mp h]
    exact hword
  | cons c rest ih =>
    obtain ⟨-, hrest⟩ := List.forall_mem_cons.mp hcs
    have hrestHumped : isHumped (c :: rest) = true := by
      rw [isHumped, Bool.and_eq_true] at hhumped
      exact hhumped.2
    have hcalphanum := hrest c List.mem_cons_self
    have hcascii := toNat_lt_of_isAlphanum hcalphanum
    have hin : isAlphanumeric c = true := (isAlphanumeric_of_ascii hcascii).trans hcalphanum
    rw [wordsFrom, hin, isUppercase_of_ascii hcascii] at h
    cases hc : c.isUpper with
    | true =>
      have hstarts := startsHump_of_isHumped hcs hhumped hc
      have hlower : c.isLower = false := by
        rw [← Bool.not_eq_true]
        exact Char.not_isLower_of_isUpper hc
      simp only [hc, hstarts, Bool.not_true, Bool.false_eq_true, if_false, Bool.and_self, if_true,
        List.mem_cons] at h
      rcases h with rfl | h
      · exact hword
      · exact ih hrest hrestHumped ⟨⟨c, rfl, hlower⟩, by simp⟩ h
    | false =>
      simp only [hc, Bool.not_true, Bool.false_eq_true, if_false, Bool.false_and] at h
      refine ih hrest hrestHumped ?_ h
      rw [List.reverse_cons]
      exact hword.concat hc

/-! ### Kebab case -/

/-- A word before a separator is written before the rest of the name. -/
theorem pascal_append_separator {word : List Char} (hword : ∀ c ∈ word, isAlphanumeric c = true)
    {c : Char} (hc : isAlphanumeric c = false) (cs : List Char) :
    pascal (word ++ c :: cs) = capitalise word ++ pascal cs := by
  have hsplit : (word ++ c :: cs).splitOnP (!isAlphanumeric ·) =
      word :: cs.splitOnP (!isAlphanumeric ·) :=
    List.splitOnP_append_cons_of_forall_mem (fun ch hch => by simp [hword ch hch]) c
      (by simp [hc]) cs
  rw [pascal, pascal, splitWhere_eq_splitOnP, splitWhere_eq_splitOnP, hsplit]
  rfl

/-- Words with hyphens between them are written one after the other. -/
theorem pascal_intercalate {parts : List (List Char)}
    (hparts : ∀ part ∈ parts, ∀ c ∈ part, isAlphanumeric c = true) :
    pascal (['-'].intercalate parts) = (parts.map capitalise).flatten := by
  induction parts with
  | nil => rfl
  | cons part parts ih =>
    rw [List.forall_mem_cons] at hparts
    cases parts with
    | nil => simp [pascal_of_alphanumeric hparts.1]
    | cons second rest =>
      have hhyphen : isAlphanumeric '-' = false := by decide +kernel
      rw [List.intercalate_cons_cons, List.append_assoc, List.singleton_append,
        pascal_append_separator hparts.1 hhyphen, ih hparts.2]
      rfl

/-- A name of letters and digits in ASCII whose capitals stand where its words start. -/
structure Humped (name : String) : Prop where
  /-- It has letters and digits only. -/
  alphanum : IsAlphanum name
  /-- It starts with no lowercase letter. -/
  head : name.toList.head?.any Char.isLower = false
  /-- Every capital behind a capital has a lowercase letter behind it. -/
  humped : isHumped name.toList = true

instance : DecidablePred Humped := fun name =>
  decidable_of_iff (IsAlphanum name ∧ name.toList.head?.any Char.isLower = false ∧
    isHumped name.toList = true)
    ⟨fun ⟨h, h', h''⟩ => ⟨h, h', h''⟩, fun ⟨h, h', h''⟩ => ⟨h, h', h''⟩⟩

namespace Humped

variable {name : String}

/-- Names are put together where no capital meets one that has no lowercase letter behind it. -/
theorem append {s t : String} (hs : Humped s) (ht : Humped t)
    (hjoint : s.toList.getLast?.any Char.isUpper = false ∨ t.toList[1]?.any Char.isLower = true) :
    Humped (s ++ t) where
  alphanum := hs.alphanum.append ht.alphanum
  head := by
    rw [String.toList_append]
    cases hname : s.toList with
    | nil => exact ht.head
    | cons c rest =>
      have hhead := hs.head
      rwa [hname] at hhead
  humped := by
    rw [String.toList_append]
    exact isHumped_append hs.humped ht.humped hjoint

/-- Such a name has letters and digits only. -/
theorem isAlphanumeric (h : Humped name) {c : Char} (hc : c ∈ name.toList) :
    Text.isAlphanumeric c = true :=
  (isAlphanumeric_of_ascii (toNat_lt_of_isAlphanum (h.alphanum c hc))).trans (h.alphanum c hc)

/-- All words of the name start where its capitals are. -/
theorem isHump (h : Humped name) {word : List Char} (hword : word ∈ words name.toList) :
    IsHump word := by
  have hin {c : Char} (hc : c ∈ name.toList) := h.isAlphanumeric hc
  obtain ⟨halphanum, hhead, hhumped⟩ := h
  rw [IsAlphanum] at halphanum
  cases hname : name.toList with
  | nil => simp [hname, words, wordsFrom] at hword
  | cons c rest =>
    rw [hname] at halphanum hhead hhumped hword hin
    rw [words, wordsFrom, if_pos (hin List.mem_cons_self)] at hword
    exact isHump_of_mem_wordsFrom halphanum hhumped ⟨⟨c, rfl, hhead⟩, by simp⟩ hword

/-- The name can be read back from its kebab case. -/
theorem pascal_kebab (h : Humped name) : pascal (kebab name.toList) = name.toList := by
  have hflatten : (words name.toList).flatten = name.toList := by
    rw [words, flatten_wordsFrom]
    exact List.filter_eq_self.mpr fun c => h.isAlphanumeric
  have halphanum {word : List Char} (hword : word ∈ words name.toList) :
      ∀ c ∈ word, c.isAlphanum = true :=
    fun c hc => h.alphanum c (hflatten ▸ List.mem_flatten_of_mem hword hc)
  have hlower : ∀ part ∈ (words name.toList).map lower, ∀ c ∈ part,
      Text.isAlphanumeric c = true := by
    refine List.forall_mem_map.mpr fun word hword c hc => ?_
    rw [lower_of_ascii fun ch hch => toNat_lt_of_isAlphanum (halphanum hword ch hch)] at hc
    obtain ⟨ch, hch, rfl⟩ := List.mem_map.mp hc
    have hlower := toLower_alphanum (halphanum hword ch hch)
    rwa [isAlphanumeric_of_ascii (toNat_lt_of_isAlphanum hlower)]
  have hback : ((words name.toList).map lower).map capitalise = words name.toList := by
    rw [List.map_map]
    refine (List.map_congr_left fun word hword => ?_).trans (List.map_id _)
    exact (h.isHump hword).capitalise_lower (halphanum hword)
  rw [kebab, pascal_intercalate hlower, hback, hflatten]

end Humped

end Declgen.Text

namespace Declgen.TypeScript

open Text

/-- A safe name can be read back from the name of its file. -/
theorem typeName_fileName {name : String} (h : Humped name) :
    typeName (fileName (safeName name)) = safeName name := by
  have hfile : fileName (safeName name) = String.ofList (kebab name.toList) := by
    rw [safeName]
    split
    · have hunderscore : isAlphanumeric '_' = false := by decide +kernel
      have hwords : words ('_' :: name.toList) = words name.toList := by
        simp [words, wordsFrom, hunderscore]
      rw [fileName, String.toList_append, kebab, kebab, ← hwords]
      rfl
    · rfl
  rw [hfile, typeName, String.toList_ofList, h.pascal_kebab, String.ofList_toList]

end Declgen.TypeScript
