import Declgen.Text.Words
import Mathlib.Data.List.Basic

/-!
# Names of files and folders

A name in kebab case is made of letters, digits and hyphens, so it holds none of the characters
that mean something in a path. It is empty only if the name has no letter or digit at all.
-/

namespace Declgen.Text

/-! ### Lowercase -/

/-- The character of a code point has this code point, or none. -/
theorem toNat_ofNat (n : Nat) : (Char.ofNat n).toNat = n ∨ (Char.ofNat n).toNat = 0 := by
  by_cases hn : n.isValidChar
  · rw [Char.ofNat, dif_pos hn]
    exact .inl rfl
  · rw [Char.ofNat, dif_neg hn]
    exact .inr rfl

/-- What holds of the first 128 characters holds of every character in ASCII. -/
theorem forall_ascii {P : Char → Prop} (h : ∀ n < 128, P (Char.ofNat n)) {c : Char}
    (hc : c.toNat < 128) : P c := by
  have hchar := h c.toNat hc
  rwa [Char.ofNat_toNat] at hchar

/-- Letters and digits of the standard library are in ASCII. -/
theorem toNat_lt_of_isAlphanum {c : Char} (h : c.isAlphanum = true) : c.toNat < 128 := by
  have hlt {last : Char} (hle : c.val ≤ last.val) (hlast : last.toNat < 128) : c.toNat < 128 :=
    Nat.lt_of_le_of_lt (UInt32.le_iff_toNat_le.mp hle) hlast
  have hkinds : ((c.isUpper || c.isLower) || c.isDigit) = true := h
  rw [Bool.or_eq_true, Bool.or_eq_true] at hkinds
  rcases hkinds with (hupper | hlower) | hdigit
  · have hbounds : 'A'.val ≤ c.val ∧ c.val ≤ 'Z'.val := of_decide_eq_true hupper
    exact hlt hbounds.2 (by decide)
  · exact hlt (of_decide_eq_true (Bool.and_eq_true_iff.mp hlower).2) (by decide)
  · exact hlt (of_decide_eq_true (Bool.and_eq_true_iff.mp hdigit).2) (by decide)

/-- The lowercase form of a letter or digit in ASCII is one too. -/
theorem toLower_alphanum {c : Char} (hc : c.isAlphanum = true) : c.toLower.isAlphanum = true :=
  forall_ascii (P := fun c => c.isAlphanum = true → c.toLower.isAlphanum = true) (by decide +kernel)
    (toNat_lt_of_isAlphanum hc) hc

/-- The case mappings lead to characters that follow the backslash. -/
theorem lowerShifts_stem : lowerShifts.all (fun r => decide (93 ≤ r.image)) = true := by
  decide +kernel

section Lower

variable {p : Char → Bool} (hword : ∀ c : Char, c.isAlphanum = true → p c = true)
  (habove : ∀ n, 93 ≤ n → p (Char.ofNat n) = true)
include hword habove

/-- The lowercase form of a letter or digit is not empty, and its characters are letters and digits
in ASCII or follow the backslash. -/
theorem lowerChars_all {c : Char} (hc : isAlphanumeric c = true) :
    lowerChars c ≠ [] ∧ (lowerChars c).all p = true := by
  by_cases hascii : c.toNat < 128
  · rw [isAlphanumeric_of_ascii hascii] at hc
    simp [lowerChars_of_ascii hascii, hword _ (toLower_alphanum hc)]
  · rw [lowerChars, if_neg hascii, mapCase]
    cases hexpansion : lowerExpansions.lookup c.toNat with
    | some images =>
      obtain ⟨before, after, heq, -⟩ := List.lookup_eq_some_iff.mp hexpansion
      have hmem : (c.toNat, images) ∈ lowerExpansions := heq ▸ by simp
      rw [lowerExpansions, List.mem_singleton, Prod.mk.injEq] at hmem
      have hletter : p (Char.ofNat 0x69) = true := hword _ (by decide)
      simp [hmem.2, hletter, habove 0x307 (by decide)]
    | none =>
      cases hshift : shift? lowerShifts c.toNat with
      | some n =>
        obtain ⟨r, hr, rfl⟩ := Option.map_eq_some_iff.mp hshift
        have himage := List.all_eq_true.mp lowerShifts_stem r (List.mem_of_find?_eq_some hr)
        rw [decide_eq_true_eq] at himage
        simp [habove _ (Nat.le_trans himage (Nat.le_add_right _ _))]
      | none =>
        have hself : p c = true := by
          rw [← Char.ofNat_toNat c]
          exact habove _ (by omega)
        simp [hself]

/-- The lowercase form of letters and digits is as empty as they are, and its characters are letters
and digits in ASCII or follow the backslash. -/
theorem lower_all {cs : List Char} (hcs : cs.all isAlphanumeric = true) :
    (lower cs = [] → cs = []) ∧ (lower cs).all p = true := by
  suffices hfrom : ∀ before, (lowerFrom before cs = [] → cs = []) ∧
      (lowerFrom before cs).all p = true from hfrom []
  induction cs with
  | nil => exact fun before => ⟨fun _ => rfl, rfl⟩
  | cons c cs ih =>
    intro before
    rw [List.all_cons, Bool.and_eq_true] at hcs
    obtain ⟨-, hrest⟩ := ih hcs.2 (c :: before)
    rw [lowerFrom, List.all_append, hrest, Bool.and_true]
    by_cases hsigma : c = 'Σ'
    · have hfinal : p 'ς' = true := habove 0x3C2 (by decide)
      have hother : p 'σ' = true := habove 0x3C3 (by decide)
      rw [if_pos hsigma]
      exact ⟨fun h => by simp at h, by split <;> simp [hfinal, hother]⟩
    · rw [if_neg hsigma]
      obtain ⟨hne, hall⟩ := lowerChars_all hword habove hcs.1
      exact ⟨fun h => absurd (List.append_eq_nil_iff.mp h).1 hne, hall⟩

end Lower

/-- A character that is no dot, no slash and no backslash. -/
def isStem (c : Char) : Bool := c != '.' && c != '/' && c != '\\'

/-- A character up to the backslash comes from its own code point only. -/
theorem ofNat_ne {n : Nat} {c : Char} (hn : 93 ≤ n) (hpos : 0 < c.toNat) (hlt : c.toNat < 93) :
    Char.ofNat n ≠ c := by
  rintro rfl
  have := toNat_ofNat n
  omega

/-- The lowercase form of letters and digits is as empty as they are and holds no dot, slash or
backslash. -/
theorem lower_stem {cs : List Char} (hcs : cs.all isAlphanumeric = true) :
    (lower cs = [] → cs = []) ∧ (lower cs).all isStem = true := by
  refine lower_all (fun c hc => ?_) (fun n hn => ?_) hcs
  · have hne (mark : Char) (hmark : mark.isAlphanum = false) : c ≠ mark := by
      rintro rfl
      simp [hc] at hmark
    simp [isStem, hne '.' rfl, hne '/' rfl, hne '\\' rfl]
  · have hne (mark : Char) := ofNat_ne (c := mark) hn
    simp [isStem, hne '.' (by decide) (by decide), hne '/' (by decide) (by decide),
      hne '\\' (by decide) (by decide)]

/-- Nor does it hold a hyphen. -/
theorem notMem_lower {cs : List Char} (hcs : cs.all isAlphanumeric = true) : '-' ∉ lower cs := by
  have hall : (lower cs).all (· != '-') = true := by
    refine (lower_all (fun c hc => ?_) (fun n hn => ?_) hcs).2
    · rw [bne_iff_ne]
      rintro rfl
      cases hc
    · rw [bne_iff_ne]
      exact ofNat_ne hn (by decide) (by decide)
  exact fun hmem => absurd (List.all_eq_true.mp hall _ hmem) (by decide)

/-! ### Words -/

/-- A word is not empty and is made of letters and digits. -/
theorem mem_wordsFrom {current cs word : List Char} (hcurrent : current.all isAlphanumeric = true)
    (h : word ∈ wordsFrom current cs) : word ≠ [] ∧ word.all isAlphanumeric = true := by
  -- The current word is complete where it is not empty.
  have hcomplete {current : List Char} (hne : current ≠ [])
      (hcurrent : current.all isAlphanumeric = true) :
      current.reverse ≠ [] ∧ current.reverse.all isAlphanumeric = true :=
    ⟨by simpa using hne, by rwa [List.all_reverse]⟩
  fun_induction wordsFrom current cs with
  | case1 => cases h
  | case2 current hne =>
    rw [List.mem_singleton.mp h]
    exact hcomplete hne hcurrent
  | case3 c rest hc ih => exact ih (by simpa using hc) h
  | case4 c rest hc ih => exact ih rfl h
  | case5 previous earlier c rest hc ih =>
    rcases List.mem_cons.mp h with rfl | h
    · exact hcomplete (by simp) hcurrent
    · exact ih rfl h
  | case6 previous earlier c rest hc hhump ih =>
    rcases List.mem_cons.mp h with rfl | h
    · exact hcomplete (by simp) hcurrent
    · exact ih (by simpa using hc) h
  | case7 previous earlier c rest hc hhump ih =>
    rw [Bool.not_eq_true, Bool.not_eq_false'] at hc
    exact ih (by rw [List.all_cons, hc, hcurrent, Bool.and_true]) h

/-- Cutting a text into words loses nothing but what is no letter and no digit. -/
theorem flatten_wordsFrom (current cs : List Char) :
    (wordsFrom current cs).flatten = current.reverse ++ cs.filter isAlphanumeric := by
  fun_induction wordsFrom current cs <;> simp_all

/-- There is no word only where there is no letter and no digit. -/
theorem wordsFrom_eq_nil_iff {current cs : List Char} :
    wordsFrom current cs = [] ↔ current = [] ∧ cs.any isAlphanumeric = false := by
  fun_induction wordsFrom current cs <;> simp_all

/-- A text has no words if it has no letters or digits. -/
theorem words_eq_nil_iff {cs : List Char} : words cs = [] ↔ cs.any isAlphanumeric = false := by
  rw [words, wordsFrom_eq_nil_iff, eq_self, true_and]

/-! ### Kebab case -/

/-- Whatever is in a joined list comes from the separator or from a part. -/
theorem mem_intercalate {α : Type} {separator : List α} {parts : List (List α)} {a : α}
    (h : a ∈ separator.intercalate parts) : a ∈ separator ∨ ∃ part ∈ parts, a ∈ part := by
  induction parts with
  | nil => cases h
  | cons first rest ih =>
    cases rest with
    | nil =>
      rw [List.intercalate_singleton] at h
      exact .inr ⟨first, List.mem_cons_self, h⟩
    | cons second rest =>
      rw [List.intercalate_cons_cons, List.mem_append, List.mem_append] at h
      rcases h with (h | h) | h
      · exact .inr ⟨first, List.mem_cons_self, h⟩
      · exact .inl h
      · exact (ih h).imp_right fun ⟨part, hpart, ha⟩ => ⟨part, List.mem_cons_of_mem _ hpart, ha⟩

/-- A name in kebab case holds no dot, slash or backslash. -/
theorem kebab_stem (cs : List Char) : (kebab cs).all isStem = true := by
  rw [List.all_eq_true]
  intro c hc
  rcases mem_intercalate hc with hc | ⟨part, hpart, hc⟩
  · rw [List.mem_singleton.mp hc]
    rfl
  · obtain ⟨word, hword, rfl⟩ := List.mem_map.mp hpart
    exact List.all_eq_true.mp (lower_stem (mem_wordsFrom rfl hword).2).2 c hc

/-- A name in kebab case is empty exactly if the name has no letter and no digit. -/
theorem kebab_eq_nil_iff {cs : List Char} : kebab cs = [] ↔ cs.any isAlphanumeric = false := by
  rw [← words_eq_nil_iff, kebab]
  constructor
  · intro h
    cases hsplit : words cs with
    | nil => rfl
    | cons word rest =>
      have hmem : word ∈ words cs := hsplit ▸ List.mem_cons_self
      obtain ⟨hne, hword⟩ := mem_wordsFrom rfl hmem
      rw [hsplit, List.map_cons] at h
      cases rest with
      | nil =>
        rw [List.map_nil, List.intercalate_singleton] at h
        exact absurd ((lower_stem hword).1 h) hne
      | cons other rest => simp [List.map_cons, List.intercalate_cons_cons] at h
  · intro h
    rw [h]
    rfl

/-- Names are the same in kebab case exactly if they have the same words in lowercase. -/
theorem kebab_eq_iff {as bs : List Char} :
    kebab as = kebab bs ↔ (words as).map lower = (words bs).map lower := by
  have hsplit {cs : List Char} (hne : words cs ≠ []) :
      (kebab cs).splitOn '-' = (words cs).map lower := by
    refine List.splitOn_intercalate '-' (fun part hpart => ?_) (by simpa using hne)
    obtain ⟨word, hword, rfl⟩ := List.mem_map.mp hpart
    exact notMem_lower (mem_wordsFrom rfl hword).2
  have hnone {cs : List Char} : words cs = [] ↔ kebab cs = [] :=
    words_eq_nil_iff.trans kebab_eq_nil_iff.symm
  refine ⟨fun h => ?_, fun h => by rw [kebab, kebab, h]⟩
  by_cases hne : words as = []
  · have hne' : words bs = [] := hnone.mpr (h ▸ hnone.mp hne)
    rw [hne, hne']
  · have hne' : words bs ≠ [] := fun h' => hne (hnone.mpr (h ▸ hnone.mp h'))
    rw [← hsplit hne, ← hsplit hne', h]

end Declgen.Text
