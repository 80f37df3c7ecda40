import Declgen.Proofs.Text.Pascal
import Declgen.TypeScript.Naming
import Mathlib

/-!
# Names in camel case

A name in camel case is one in Pascal case whose first capital, or whose acronym at the start, is
in lowercase. Putting a name in ASCII into camel case twice is the same as doing it once. But a name
that starts in lowercase need not be in camel case already: its first letter becomes a capital
before an acronym is looked for, so a capital behind it is taken for a part of the acronym, unless a
lowercase letter follows that capital.
-/

namespace Declgen.Text

/-- The name with its first capital, or with the acronym at its start, in lowercase. -/
def lowerHead (name : List Char) : List Char :=
  (name.take (camelHead name)).flatMap lowerChars ++ name.drop (camelHead name)

/-- Camel case is Pascal case with another beginning. -/
private theorem camel_eq (cs : List Char) : camel cs = lowerHead (pascal cs) := rfl

/-! ### The head of a name -/

section Head

variable {c : Char} {rest : List Char}

/-- A name that starts with no capital has nothing in lowercase. -/
theorem lowerHead_of_not_upper (hc : isUppercase c = false) :
    lowerHead (c :: rest) = c :: rest := by
  have hhead : camelHead (c :: rest) = 0 := by simp [camelHead, hc]
  rw [lowerHead, hhead]
  rfl

/-- A name that starts with a capital has only this one in lowercase, unless another capital
follows without a lowercase letter behind it. -/
theorem camelHead_of_upper (hascii : ∀ ch ∈ c :: rest, ch.toNat < 128) (hc : c.isUpper = true) :
    1 ≤ camelHead (c :: rest) ∧ (camelHead (c :: rest) = 1 ↔
      (rest[0]?.any Char.isUpper = true → rest[1]?.any Char.isLower = true)) := by
  obtain ⟨hcascii, hrest⟩ := List.forall_mem_cons.mp hascii
  have hupper : isUppercase c = true := (isUppercase_of_ascii hcascii).trans hc
  cases rest with
  | nil => simp [camelHead, hupper]
  | cons y rest =>
    obtain ⟨hyascii, hrest⟩ := List.forall_mem_cons.mp hrest
    have hy : isUppercase y = y.isUpper := isUppercase_of_ascii hyascii
    cases hyupper : y.isUpper with
    | false => simp [camelHead, hupper, hy, hyupper]
    | true =>
      cases rest with
      | nil => simp [camelHead, hupper, hy, hyupper]
      | cons z rest =>
        have hzascii := hrest z List.mem_cons_self
        have hz : isUppercase z = z.isUpper := isUppercase_of_ascii hzascii
        have hz' : isLowercase z = z.isLower := isLowercase_of_ascii hzascii
        cases hzupper : z.isUpper with
        | false =>
          cases hzlower : z.isLower <;>
            simp [camelHead, hupper, hy, hyupper, hz, hzupper, hz', hzlower]
        | true =>
          have hzlower : z.isLower = false := by
            rw [← Bool.not_eq_true]
            exact Char.not_isLower_of_isUpper hzupper
          have hcapitals : ((c :: y :: z :: rest).takeWhile isUppercase).length =
              (rest.takeWhile isUppercase).length + 3 := by
            simp [hupper, hy, hyupper, hz, hzupper]
          have hhead : 2 ≤ camelHead (c :: y :: z :: rest) := by
            rw [camelHead, hcapitals]
            grind
          refine ⟨by omega, iff_of_false (by omega) ?_⟩
          simp [hyupper, hzlower]

/-- A name that starts with a capital has it in lowercase, and what follows it up to the end of the
head. -/
theorem exists_lowerHead (hascii : ∀ ch ∈ c :: rest, ch.toNat < 128) (hc : c.isUpper = true) :
    ∃ k, camelHead (c :: rest) = k + 1 ∧
      lowerHead (c :: rest) = c.toLower :: ((rest.take k).map Char.toLower ++ rest.drop k) := by
  obtain ⟨k, hk⟩ := Nat.exists_eq_add_of_le' (camelHead_of_upper hascii hc).1
  obtain ⟨hcascii, hrest⟩ := List.forall_mem_cons.mp hascii
  have hlower : (rest.take k).flatMap lowerChars = (rest.take k).map Char.toLower := by
    rw [← List.flatMap_singleton' (List.map _ _), List.flatMap_map]
    exact List.flatMap_congr fun ch hch => lowerChars_of_ascii (hrest ch (List.mem_of_mem_take hch))
  refine ⟨k, hk, ?_⟩
  rw [lowerHead, hk, List.take_succ_cons, List.drop_succ_cons, List.flatMap_cons,
    lowerChars_of_ascii hcascii, hlower]
  rfl

/-- Where the head of a name is longer than one capital, it has a second capital. -/
theorem exists_second_capital (hascii : ∀ ch ∈ c :: rest, ch.toNat < 128) (hc : c.isUpper = true)
    (h : camelHead (c :: rest) ≠ 1) : ∃ second others, rest = second :: others ∧
      second.isUpper = true := by
  rw [ne_eq, (camelHead_of_upper hascii hc).2, Classical.not_imp] at h
  cases rest with
  | nil => simp at h
  | cons second others => exact ⟨second, others, rfl, by simpa using h.1⟩

end Head

/-! ### Words -/

/-- Capitalising a text that starts in ASCII changes one character. -/
theorem capitalise_of_ascii {c : Char} (hc : c.toNat < 128) (rest : List Char) :
    capitalise (c :: rest) = c.toUpper :: rest := by
  rw [capitalise, upperChars_of_ascii hc]
  rfl

variable {cs : List Char}

/-- A word of letters and digits is put into camel case by its capitalised form. -/
theorem camel_of_alphanum (h : ∀ c ∈ cs, c.isAlphanum = true) :
    camel cs = lowerHead (capitalise cs) := by
  rw [camel_eq, pascal_of_alphanumeric fun c hc => ?_]
  rw [isAlphanumeric_of_ascii (toNat_lt_of_isAlphanum (h c hc)), h c hc]

/-- A name of letters and digits still is one with its head in lowercase. -/
theorem lowerHead_alphanum (h : ∀ c ∈ cs, c.isAlphanum = true) :
    ∀ c ∈ lowerHead cs, c.isAlphanum = true := by
  intro c hc
  rcases List.mem_append.mp hc with hc | hc
  · obtain ⟨ch, hch, hc⟩ := List.mem_flatMap.mp hc
    have halphanum := h ch (List.mem_of_mem_take hch)
    rw [lowerChars_of_ascii (toNat_lt_of_isAlphanum halphanum)] at hc
    rw [List.mem_singleton.mp hc]
    exact toLower_alphanum halphanum
  · exact h c (List.mem_of_mem_drop hc)

/-- A word that starts with a lowercase letter is in camel case exactly if its second character is
no capital or its third one is a lowercase letter. -/
theorem camel_eq_self_iff {c : Char} {rest : List Char}
    (h : ∀ ch ∈ c :: rest, ch.isAlphanum = true) (hc : c.isLower = true) :
    camel (c :: rest) = c :: rest ↔
      (rest[0]?.any Char.isUpper = true → rest[1]?.any Char.isLower = true) := by
  obtain ⟨hcalphanum, hrest⟩ := List.forall_mem_cons.mp h
  have hcascii := toNat_lt_of_isAlphanum hcalphanum
  have hupper : c.toUpper.isUpper = true := by simp [Char.isAlpha, hc]
  have hlower : c.toUpper.toLower = c := by
    rw [Char.toLower_toUpper_eq_toLower,
      Char.toLower_eq_of_not_isUpper (Char.not_isUpper_of_isLower hc)]
  have hascii : ∀ ch ∈ c.toUpper :: rest, ch.toNat < 128 :=
    List.forall_mem_cons.mpr ⟨toNat_lt_of_isAlphanum (toUpper_alphanum hcascii hcalphanum).1,
      fun ch hch => toNat_lt_of_isAlphanum (hrest ch hch)⟩
  obtain ⟨k, hk, hname⟩ := exists_lowerHead hascii hupper
  rw [camel_of_alphanum h, capitalise_of_ascii hcascii, hname, hlower, List.cons_inj_right,
    ← (camelHead_of_upper hascii hupper).2, hk]
  constructor
  · intro heq
    by_contra hne
    obtain ⟨second, others, rfl, hsecond⟩ := exists_second_capital hascii hupper (by rwa [hk])
    obtain ⟨j, rfl⟩ := Nat.exists_eq_add_one_of_ne_zero fun hzero => hne (congrArg (· + 1) hzero)
    rw [List.take_succ_cons, List.map_cons, List.cons_append, List.cons.injEq] at heq
    have hlower := Char.isUpper_toLower_eq_false second
    rw [heq.1, hsecond] at hlower
    cases hlower
  · intro heq
    obtain rfl : k = 0 := by omega
    rfl

/-- Capitalising a name whose head is in lowercase and putting the head into lowercase again gives
the name back. -/
theorem lowerHead_capitalise (h : ∀ c ∈ cs, c.isAlphanum = true)
    (hhead : ∀ c, cs.head? = some c → c.isLower = false) :
    lowerHead (capitalise (lowerHead cs)) = lowerHead cs := by
  cases cs with
  | nil => rfl
  | cons c rest =>
    have hascii : ∀ ch ∈ c :: rest, ch.toNat < 128 := fun ch hch =>
      toNat_lt_of_isAlphanum (h ch hch)
    have hcascii := hascii c List.mem_cons_self
    have hself : c.toUpper = c := Char.toUpper_eq_of_not_isLower (by simp [hhead c rfl])
    cases hc : c.isUpper with
    | false =>
      -- The name starts with a digit, which neither case changes.
      have hkept : lowerHead (c :: rest) = c :: rest :=
        lowerHead_of_not_upper ((isUppercase_of_ascii hcascii).trans hc)
      rw [hkept, capitalise_of_ascii hcascii, hself, hkept]
    | true =>
      obtain ⟨k, hk, hname⟩ := exists_lowerHead hascii hc
      have hlowerAscii : c.toLower.toNat < 128 :=
        toNat_lt_of_isAlphanum (toLower_alphanum (h c List.mem_cons_self))
      rw [hname, capitalise_of_ascii hlowerAscii, Char.toUpper_toLower_eq_toUpper, hself]
      by_cases hone : camelHead (c :: rest) = 1
      · -- Only the first capital has been changed, so it is the same name again.
        obtain rfl : k = 0 := by omega
        rw [List.take_zero, List.map_nil, List.nil_append, List.drop_zero] at hname ⊢
        exact hname
      · -- The second capital is in lowercase now, so only the first one is left in the head.
        obtain ⟨second, others, rfl, hsecond⟩ := exists_second_capital hascii hc hone
        obtain ⟨j, rfl⟩ : ∃ j, k = j + 1 := Nat.exists_eq_add_one_of_ne_zero (by omega)
        have hlowered := lowerHead_alphanum h
        rw [hname, List.forall_mem_cons] at hlowered
        have hascii' : ∀ ch ∈ c :: (((second :: others).take (j + 1)).map Char.toLower ++
            (second :: others).drop (j + 1)), ch.toNat < 128 :=
          List.forall_mem_cons.mpr
            ⟨hcascii, fun ch hch => toNat_lt_of_isAlphanum (hlowered.2 ch hch)⟩
        obtain ⟨k', hk', hname'⟩ := exists_lowerHead hascii' hc
        have hone' := (camelHead_of_upper hascii' hc).2.mpr (by simp)
        obtain rfl : k' = 0 := by omega
        exact hname'

/-- Putting a name in ASCII into camel case twice is the same as doing it once. -/
theorem camel_camel (hascii : ∀ c ∈ cs, c.toNat < 128) : camel (camel cs) = camel cs := by
  have hpascal := pascal_alphanum hascii
  have hhead (c : Char) (hc : (pascal cs).head? = some c) : c.isLower = false := by
    rw [head?_pascal hascii] at hc
    obtain ⟨ch, -, rfl⟩ := Option.map_eq_some_iff.mp hc
    exact Char.isLower_toUpper_eq_false ch
  rw [camel_eq cs, camel_of_alphanum (lowerHead_alphanum hpascal),
    lowerHead_capitalise hpascal hhead]

end Declgen.Text

namespace Declgen.TypeScript

open Text

/-- A name of letters and digits in ASCII that starts with a lowercase letter is kept as the name of
a field exactly if its second character is no capital or its third one is a lowercase letter. The
name of a field is always kept as the name of a field, if it comes from a name in ASCII. -/
theorem fieldName_kept (s : String) :
    (IsAlphanum s → s.toList.head?.any Char.isLower = true →
      (fieldName s = s ↔
        (s.toList[1]?.any Char.isUpper = true → s.toList[2]?.any Char.isLower = true))) ∧
    (IsAscii s → fieldName (fieldName s) = fieldName s) := by
  constructor
  · intro halphanum hhead
    rw [fieldName, ← String.toList_inj, String.toList_ofList]
    cases hs : s.toList with
    | nil => simp [hs] at hhead
    | cons c rest =>
      rw [IsAlphanum, hs] at halphanum
      exact camel_eq_self_iff halphanum (by simpa [hs] using hhead)
  · intro hascii
    rw [fieldName, fieldName, String.toList_ofList, camel_camel hascii]

/-- The name `alreadyCamel` is kept, and so is `URL_Path` once it has been put into camel case. -/
theorem fieldName_kept_alreadyCamel :
    IsAlphanum "alreadyCamel" ∧ "alreadyCamel".toList.head?.any Char.isLower = true ∧
      fieldName "alreadyCamel" = "alreadyCamel" ∧ IsAscii "URL_Path" ∧
      fieldName "URL_Path" = "urlPath" ∧ fieldName (fieldName "URL_Path") = "urlPath" := by
  have halphanum : IsAlphanum "alreadyCamel" := by decide
  have hhead : "alreadyCamel".toList.head?.any Char.isLower = true := by decide
  have hascii : IsAscii "URL_Path" := by decide
  have hcamel : fieldName "URL_Path" = "urlPath" := by decide +kernel
  exact ⟨halphanum, hhead, ((fieldName_kept "alreadyCamel").1 halphanum hhead).mpr (by decide),
    hascii, hcamel, ((fieldName_kept "URL_Path").2 hascii).trans hcamel⟩

/-- A capital behind the lowercase letter that a name starts with is not always kept. -/
theorem fieldName_capital_lost :
    IsAlphanum "xY" ∧ "xY".toList.head?.any Char.isLower = true ∧ fieldName "xY" = "xy" ∧
      fieldName "xY" ≠ "xY" := by
  decide +kernel

end Declgen.TypeScript
