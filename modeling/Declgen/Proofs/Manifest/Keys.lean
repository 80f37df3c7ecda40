import Declgen.Manifest.Span
import Declgen.Proofs.Text.Bytes
import Mathlib.Data.List.Induction
import Mathlib.Data.List.TakeWhile

/-!
# Places of keys

A key stands in a source text where blanks only come before it on its line and where, behind it on
the same line, an equals sign follows after blanks. Going through the lines finds the first of these
places: a line has at most one, and a line break parts those of the lines before and after it.
-/

namespace Declgen.Manifest

open Text

/-! ### Lines -/

/-- What stands on the first line of a text. -/
def firstLine (cs : List Char) : List Char := cs.takeWhile (· != '\n')

/-- What stands on the last line of a text. -/
def lastLine (cs : List Char) : List Char := (firstLine cs.reverse).reverse

/-- Lines with their ends: each ends with its only line feed, but the last one may have none. -/
inductive Lined : List (List Char) → Prop where
  | nil : Lined []
  | last {line : List Char} (hline : '\n' ∉ line) : Lined [line]
  | cons {line : List Char} {lines : List (List Char)} (hline : '\n' ∉ line)
      (hlines : Lined lines) : Lined ((line ++ ['\n']) :: lines)

section Lines

variable {cs : List Char}

/-- Without line feed all of a text is its first line. -/
private theorem firstLine_of_notMem (h : '\n' ∉ cs) : firstLine cs = cs :=
  List.takeWhile_eq_self_iff.mpr fun _ hc => bne_iff_ne.mpr fun heq => h (heq ▸ hc)

/-- Without line feed all of a text is its last line. -/
private theorem lastLine_of_notMem (h : '\n' ∉ cs) : lastLine cs = cs := by
  rw [lastLine, firstLine_of_notMem (by rwa [List.mem_reverse]), List.reverse_reverse]

/-- The first line ends at the first line feed. -/
theorem firstLine_append (cs ds : List Char) : firstLine (cs ++ '\n' :: ds) = firstLine cs := by
  induction cs with
  | nil => rfl
  | cons c cs ih =>
    rw [firstLine] at ih
    by_cases hc : c = '\n' <;> simp [firstLine, hc, ih]

/-- The last line starts behind the last line feed. -/
theorem lastLine_append (cs ds : List Char) : lastLine (cs ++ '\n' :: ds) = lastLine ds := by
  rw [lastLine, List.reverse_append, List.reverse_cons, List.append_assoc, List.singleton_append,
    firstLine_append, lastLine]

/-- A character in front of lines with their ends belongs to the first one. -/
theorem Lined.cons_head {c : Char} {line : List Char} {lines : List (List Char)} (hc : c ≠ '\n')
    (h : Lined (line :: lines)) : Lined ((c :: line) :: lines) := by
  cases h with
  | last hline => exact .last (List.not_mem_cons_of_ne_of_not_mem hc.symm hline)
  | @cons line _ hline hlines =>
    exact @Lined.cons (c :: line) _ (List.not_mem_cons_of_ne_of_not_mem hc.symm hline) hlines

/-- The lines of a text with their ends are such lines. -/
theorem lined_linesWithEnds (cs : List Char) : Lined (linesWithEnds cs) := by
  fun_induction linesWithEnds cs with
  | case1 => exact .nil
  | case2 rest ih => exact @Lined.cons [] _ List.not_mem_nil ih
  | case3 c rest hc hrest ih =>
    exact .last (List.not_mem_cons_of_ne_of_not_mem (Ne.symm hc) List.not_mem_nil)
  | case4 c rest hc line lines hrest ih =>
    rw [hrest] at ih
    exact ih.cons_head hc

/-- The lines with their ends are the text. -/
theorem flatten_linesWithEnds (cs : List Char) : (linesWithEnds cs).flatten = cs := by
  fun_induction linesWithEnds cs <;> simp_all

end Lines

/-! ### Keys on a line -/

/-- All characters are blank. -/
def Blank (cs : List Char) : Prop := ∀ c ∈ cs, isBlank c = true

/-- An equals sign follows after blanks. -/
def Assigns (cs : List Char) : Prop := ∃ gap value, cs = gap ++ '=' :: value ∧ Blank gap

/-- A line is an entry with this key: the blanks at its start, the key and an equals sign. -/
def IsEntry (key line indent : List Char) : Prop :=
  ∃ after, line = indent ++ key ++ after ∧ Blank indent ∧ Assigns after

/-- A key that is looked for stands on one line and is neither empty nor surrounded by blanks. -/
structure IsKey (key : List Char) : Prop where
  /-- There is something to be looked for. -/
  ne_nil : key ≠ []
  /-- It has no line break. -/
  notMem : '\n' ∉ key
  /-- It has no blank at either end. -/
  trim_eq : trim key = key

instance : DecidablePred IsKey := fun key =>
  decidable_of_iff (key ≠ [] ∧ '\n' ∉ key ∧ trim key = key)
    ⟨fun ⟨h, h', h''⟩ => ⟨h, h', h''⟩, fun ⟨h, h', h''⟩ => ⟨h, h', h''⟩⟩

/-- The blanks before a key on a line that starts with it. -/
def indent? (key line : List Char) : Option (List Char) :=
  if startsWithKey key line then some (line.takeWhile isBlank) else none

section Entries

variable {key line indent cs : List Char}

/-- An equals sign follows if it is the first character that is not blank. -/
theorem assigns_iff : Assigns cs ↔ (trimStart cs).head? = some '=' := by
  constructor
  · rintro ⟨gap, value, rfl, hgap⟩
    have hequals : isBlank '=' = false := by decide
    rw [trimStart, List.dropWhile_append_of_pos hgap,
      List.dropWhile_cons_of_neg (by simp [hequals]), List.head?_cons]
  · intro h
    obtain ⟨value, hvalue⟩ := List.head?_eq_some_iff.mp h
    refine ⟨cs.takeWhile isBlank, value, ?_, fun c => List.mem_takeWhile_imp⟩
    rw [← hvalue, trimStart, List.takeWhile_append_dropWhile]

/-- Behind a line break there is nothing left on the line. -/
theorem assigns_append_break : Assigns (cs ++ ['\n']) ↔ Assigns cs := by
  rw [Assigns, Assigns]
  constructor
  · rintro ⟨gap, value, hvalue, hgap⟩
    cases value using List.reverseRecOn with
    | nil => simp at hvalue
    | append_singleton value c =>
      rw [← List.cons_append, ← List.append_assoc] at hvalue
      exact ⟨gap, value, (List.append_inj' hvalue rfl).1, hgap⟩
  · rintro ⟨gap, value, rfl, hgap⟩
    exact ⟨gap, value ++ ['\n'], by simp, hgap⟩

/-- A key starts with a character that is not blank. -/
theorem IsKey.exists_cons (h : IsKey key) : ∃ c rest, key = c :: rest ∧ isBlank c = false := by
  obtain ⟨c, rest, rfl⟩ := List.exists_cons_of_ne_nil h.ne_nil
  refine ⟨c, rest, rfl, Bool.eq_false_iff.mpr fun hc => ?_⟩
  have hlength : (trim (c :: rest)).length ≤ rest.length := by
    rw [trim, trimEnd, trimStart, List.dropWhile_cons_of_pos hc, List.length_reverse]
    refine (List.length_dropWhile_le _ _).trans ?_
    rw [List.length_reverse]
    exact List.length_dropWhile_le _ _
  rw [h.trim_eq, List.length_cons] at hlength
  omega

/-- A line starts with a key exactly if it is an entry with this key, behind its blanks. -/
theorem indent?_eq_some_iff (hkey : IsKey key) :
    indent? key line = some indent ↔ IsEntry key line indent := by
  constructor
  · intro h
    rw [indent?, Option.ite_none_right_eq_some, Option.some_inj, startsWithKey] at h
    obtain ⟨hstarts, rfl⟩ := h
    cases hafter : key.isPrefixOf? (trimStart line) with
    | none => simp [hafter] at hstarts
    | some after =>
      rw [hafter, decide_eq_true_eq, ← assigns_iff] at hstarts
      refine ⟨after, ?_, fun c => List.mem_takeWhile_imp, hstarts⟩
      rw [List.append_assoc, List.append_eq_of_isPrefixOf?_eq_some hafter, trimStart,
        List.takeWhile_append_dropWhile]
  · rintro ⟨after, rfl, hindent, hassigns⟩
    obtain ⟨c, rest, rfl, hc⟩ := hkey.exists_cons
    have hneg : ¬ isBlank c = true := by simp [hc]
    have hstarts : (c :: rest).isPrefixOf? (c :: rest ++ after) = some after :=
      List.isPrefixOf?_eq_some_iff_append_eq.mpr rfl
    rw [indent?, startsWithKey, trimStart, List.append_assoc,
      List.dropWhile_append_of_pos hindent, List.takeWhile_append_of_pos hindent,
      List.cons_append, List.dropWhile_cons_of_neg hneg, List.takeWhile_cons_of_neg hneg,
      ← List.cons_append, hstarts, List.append_nil]
    simp [assigns_iff.mp hassigns]

/-- The line break at the end of a line makes no difference. -/
theorem indent?_append_break (hkey : IsKey key) (line : List Char) :
    indent? key (line ++ ['\n']) = indent? key line := by
  refine Option.ext fun indent => ?_
  rw [indent?_eq_some_iff hkey, indent?_eq_some_iff hkey]
  constructor
  · rintro ⟨after, hline, hindent, hassigns⟩
    cases after using List.reverseRecOn with
    | nil =>
      obtain ⟨gap, value, hvalue, -⟩ := hassigns
      simp at hvalue
    | append_singleton after c =>
      rw [← List.append_assoc] at hline
      obtain ⟨rfl, hc⟩ := List.append_inj' hline rfl
      rw [← hc, assigns_append_break] at hassigns
      exact ⟨after, rfl, hindent, hassigns⟩
  · rintro ⟨after, rfl, hindent, hassigns⟩
    exact ⟨after ++ ['\n'], List.append_assoc .., hindent, assigns_append_break.mpr hassigns⟩

end Entries

/-! ### Keys in a text -/

/-- A key stands behind a beginning of a text, first on its line and with an equals sign after it
on this line. -/
def KeyBehind (key cs before : List Char) : Prop :=
  ∃ after, cs = before ++ key ++ after ∧ Blank (lastLine before) ∧ Assigns (firstLine after)

section Places

variable {key line cs before : List Char}

/-- In a text of one line the key stands where the line is its entry. -/
theorem keyBehind_iff_of_notMem (hline : '\n' ∉ line) :
    KeyBehind key line before ↔ IsEntry key line before := by
  refine exists_congr fun after => and_congr_right fun heq => ?_
  rw [heq, List.mem_append, List.mem_append, not_or, not_or] at hline
  rw [lastLine_of_notMem hline.1.1, firstLine_of_notMem hline.2]

/-- A key in a text stands on the first line, or behind its line break. -/
theorem keyBehind_append_iff (hkey : IsKey key) (hline : '\n' ∉ line) :
    KeyBehind key (line ++ '\n' :: cs) before ↔
      KeyBehind key line before ∨
        ∃ later, before = line ++ '\n' :: later ∧ KeyBehind key cs later := by
  constructor
  · rintro ⟨after, heq, hbefore, hafter⟩
    rw [List.append_assoc] at heq
    rcases List.append_eq_append_iff.mp heq with ⟨later, rfl, hlater⟩ | ⟨tail, rfl, htail⟩
    · -- The key stands behind the line.
      cases later with
      | nil =>
        obtain ⟨c, rest, rfl, -⟩ := hkey.exists_cons
        obtain ⟨rfl, -⟩ := List.cons_eq_cons.mp hlater
        exact absurd List.mem_cons_self hkey.notMem
      | cons c later =>
        obtain ⟨rfl, rfl⟩ := List.cons_eq_cons.mp hlater
        rw [lastLine_append] at hbefore
        exact .inr ⟨later, rfl, after, (List.append_assoc ..).symm, hbefore, hafter⟩
    · -- The key starts on the line. As it has no line break, it ends there too.
      refine .inl ?_
      rcases List.append_eq_append_iff.mp htail with ⟨rest, rfl, rfl⟩ | ⟨rest, rfl, hrest⟩
      · rw [firstLine_append] at hafter
        exact ⟨rest, (List.append_assoc ..).symm, hbefore, hafter⟩
      · cases rest with
        | nil =>
          rw [List.nil_append] at hrest
          rw [← hrest, ← List.nil_append ('\n' :: cs), firstLine_append] at hafter
          exact ⟨[], by simp, hbefore, hafter⟩
        | cons c rest =>
          obtain ⟨rfl, -⟩ := List.cons_eq_cons.mp hrest
          exact absurd (by simp) hkey.notMem
  · rintro (⟨after, rfl, hbefore, hafter⟩ | ⟨later, rfl, after, rfl, hbefore, hafter⟩)
    · rw [← firstLine_append after cs] at hafter
      exact ⟨after ++ '\n' :: cs, by simp, hbefore, hafter⟩
    · rw [← lastLine_append line later] at hbefore
      exact ⟨after, by simp, hbefore, hafter⟩

/-- The place in a text of one line is found behind its blanks. -/
theorem finds_indent? (hkey : IsKey key) (hline : '\n' ∉ line) :
    Finds (KeyBehind key line) (indent? key line) := by
  have hiff (before : List Char) : KeyBehind key line before ↔ indent? key line = some before := by
    rw [keyBehind_iff_of_notMem hline, indent?_eq_some_iff hkey]
  cases hindent : indent? key line with
  | none => exact fun before => by simp [hiff, hindent]
  | some indent =>
    refine ⟨(hiff indent).mpr hindent, fun before hbefore => ?_⟩
    rw [hiff, hindent, Option.some_inj] at hbefore
    exact hbefore ▸ List.prefix_rfl

/-- The place on the first line comes before all others, which are searched for if there is none. -/
theorem finds_append_break (hkey : IsKey key) (hline : '\n' ∉ line) {found : Option (List Char)}
    (hfound : Finds (KeyBehind key cs) found) :
    Finds (KeyBehind key (line ++ '\n' :: cs))
      ((indent? key line).or (found.map (line ++ ['\n'] ++ ·))) := by
  have hfirst := finds_indent? hkey hline
  cases hindent : indent? key line with
  | none =>
    rw [hindent] at hfirst
    refine hfound.append (line ++ ['\n']) fun before => ?_
    rw [keyBehind_append_iff hkey hline, or_iff_right (hfirst before)]
    simp only [List.append_assoc, List.singleton_append]
  | some indent =>
    rw [hindent] at hfirst
    refine ⟨(keyBehind_append_iff hkey hline).mpr (.inl hfirst.1), fun before hbefore => ?_⟩
    rcases (keyBehind_append_iff hkey hline).mp hbefore with hbefore | ⟨later, rfl, -⟩
    · exact hfirst.2 before hbefore
    · obtain ⟨after, rfl, -⟩ := hfirst.1
      simp only [List.append_assoc]
      exact List.prefix_append ..

/-- The place that a line shows, if it is an entry with the key. -/
theorem keySpanFrom_cons (key : List Char) (offset : Nat) (line : List Char)
    (lines : List (List Char)) :
    keySpanFrom key offset (line :: lines) =
      ((indent? key line).map fun indent => ⟨offset + byteLength indent, byteLength key⟩).or
        (keySpanFrom key (offset + byteLength line) lines) := by
  rw [keySpanFrom, indent?]
  split <;> rfl

/-- Going through the lines of a text finds the first place of a key. -/
theorem keySpanFrom_finds (hkey : IsKey key) {lines : List (List Char)} (hlines : Lined lines)
    (offset : Nat) : ∃ found, Finds (KeyBehind key lines.flatten) found ∧
      keySpanFrom key offset lines =
        found.map fun before => ⟨offset + byteLength before, byteLength key⟩ := by
  induction hlines generalizing offset with
  | nil =>
    refine ⟨none, ?_, rfl⟩
    rintro before ⟨after, heq, -⟩
    simp [hkey.ne_nil] at heq
  | @last line hline =>
    refine ⟨indent? key line, ?_, ?_⟩
    · rw [List.flatten_singleton]
      exact finds_indent? hkey hline
    · rw [keySpanFrom_cons, keySpanFrom, Option.or_none]
  | @cons line lines hline hlines ih =>
    obtain ⟨found, hfound, hspan⟩ := ih (offset + byteLength (line ++ ['\n']))
    refine ⟨(indent? key line).or (found.map (line ++ ['\n'] ++ ·)), ?_, ?_⟩
    · rw [List.flatten_cons, List.append_assoc, List.singleton_append]
      exact finds_append_break hkey hline hfound
    · rw [keySpanFrom_cons, indent?_append_break hkey, hspan, Option.map_or, Option.map_map]
      congr 2
      funext before
      rw [Function.comp_apply, byteLength_append (line ++ ['\n']), Nat.add_assoc]

end Places

/-! ### Bytes before a key -/

/-- A key stands in a source behind this many bytes: nothing but blanks comes before it on its
line, and behind it on this line an equals sign follows after blanks. -/
def KeyAt (source key : String) (start : Nat) : Prop :=
  ∃ before after : String, source = before ++ key ++ after ∧ before.utf8ByteSize = start ∧
    Blank (lastLine before.toList) ∧ Assigns (firstLine after.toList)

variable {key : String}

/-- A key stands behind as many bytes as the characters before it have. -/
theorem keyAt_iff {source : String} {start : Nat} :
    KeyAt source key start ↔
      ∃ before, KeyBehind key.toList source.toList before ∧ byteLength before = start := by
  constructor
  · rintro ⟨before, after, rfl, rfl, hbefore, hafter⟩
    refine ⟨before.toList, ⟨after.toList, ?_, hbefore, hafter⟩, byteLength_toList before⟩
    rw [String.toList_append, String.toList_append]
  · rintro ⟨before, ⟨after, hsource, hbefore, hafter⟩, rfl⟩
    refine ⟨String.ofList before, String.ofList after, ?_, utf8ByteSize_ofList before, ?_, ?_⟩
    · rw [← String.toList_inj, hsource]
      simp
    · rwa [String.toList_ofList]
    · rwa [String.toList_ofList]

/-- The place of a key is the first one, and there is none if the key stands nowhere. -/
theorem keySpan_cases (source : String) (hkey : IsKey key.toList) :
    (∃ start, IsLeast {i | KeyAt source key i} start ∧
      keySpan source key = some ⟨start, key.utf8ByteSize⟩) ∨
    ((∀ i, ¬ KeyAt source key i) ∧ keySpan source key = none) := by
  obtain ⟨found, hfound, hspan⟩ := keySpanFrom_finds hkey (lined_linesWithEnds source.toList) 0
  rw [flatten_linesWithEnds] at hfound
  rw [← keySpan] at hspan
  simp only [keyAt_iff]
  cases found with
  | none =>
    refine .inr ⟨?_, hspan⟩
    rintro i ⟨before, hbefore, -⟩
    exact hfound before hbefore
  | some before =>
    refine .inl ⟨byteLength before, hfound.isLeast, ?_⟩
    rw [hspan, Option.map_some, Nat.zero_add, byteLength_toList]

end Declgen.Manifest
