import Declgen.Manifest.Span
import Declgen.Proofs.Text.Bytes

/-!
# Places of values

A value is looked for between double quotes, from the start of a source and then again behind the
first occurrence. The second occurrence, which does not overlap the first one, is the place of the
value, and the first one is if there is no second.
-/

namespace Declgen.Manifest

open Text

/-- A pattern stands behind a beginning of a text. -/
def PatternBehind (pattern cs before : List Char) : Prop := ∃ after, cs = before ++ pattern ++ after

section Search

variable {pattern cs before after : List Char}

/-- What a pattern stands behind is a beginning of the text. -/
theorem PatternBehind.beginning (h : PatternBehind pattern cs before) : before <+: cs := by
  obtain ⟨after, rfl⟩ := h
  rw [List.append_assoc]
  exact List.prefix_append ..

/-- A pattern with which a text does not start is found behind its first character. -/
theorem patternBehind_cons_iff {c : Char} {rest : List Char}
    (h : pattern.isPrefixOf? (c :: rest) = none) :
    PatternBehind pattern (c :: rest) before ↔
      ∃ later, before = [c] ++ later ∧ PatternBehind pattern rest later := by
  constructor
  · rintro ⟨after, heq⟩
    cases before with
    | nil =>
      rw [List.nil_append] at heq
      rw [List.isPrefixOf?_eq_some_iff_append_eq.mpr heq.symm] at h
      cases h
    | cons c' later =>
      obtain ⟨rfl, rfl⟩ := List.cons_eq_cons.mp heq
      exact ⟨later, rfl, after, rfl⟩
  · rintro ⟨later, rfl, after, rfl⟩
    exact ⟨after, rfl⟩

/-- Cutting a text at a pattern finds the first place of the pattern. -/
theorem finds_cut? (pattern cs : List Char) :
    Finds (PatternBehind pattern cs) ((cut? pattern cs).map Prod.fst) := by
  fun_induction cut? pattern cs with
  | case1 hempty =>
    rw [List.isEmpty_iff] at hempty
    exact ⟨⟨[], by simp [hempty]⟩, fun before _ => List.nil_prefix⟩
  | case2 hempty =>
    rintro before ⟨after, heq⟩
    simp_all
  | case3 c rest after hstarts =>
    exact ⟨⟨after, (List.append_eq_of_isPrefixOf?_eq_some hstarts).symm⟩,
      fun before _ => List.nil_prefix⟩
  | case4 c rest hstarts ih =>
    have hrest := ih.append [c] fun before => patternBehind_cons_iff hstarts
    rw [Option.map_map] at hrest ⊢
    exact hrest

/-- Nothing of a text gets lost when it is cut. -/
theorem eq_append_of_cut? (h : cut? pattern cs = some (before, after)) :
    cs = before ++ pattern ++ after := by
  fun_induction cut? pattern cs generalizing before after with
  | case1 hempty =>
    obtain ⟨rfl, rfl⟩ := Prod.mk.inj (Option.some.inj h)
    simp_all
  | case2 hempty => cases h
  | case3 c rest tail hstarts =>
    obtain ⟨rfl, rfl⟩ := Prod.mk.inj (Option.some.inj h)
    exact (List.append_eq_of_isPrefixOf?_eq_some hstarts).symm
  | case4 c rest hstarts ih =>
    obtain ⟨⟨before, after⟩, hcut, heq⟩ := Option.map_eq_some_iff.mp h
    obtain ⟨rfl, rfl⟩ := Prod.mk.inj heq
    rw [ih hcut]
    rfl

/-- A pattern that stands behind a beginning of a text stands there behind what is left of it. -/
theorem patternBehind_append_iff {front : List Char} :
    PatternBehind pattern (front ++ cs) before ∧ front <+: before ↔
      ∃ later, before = front ++ later ∧ PatternBehind pattern cs later := by
  constructor
  · rintro ⟨⟨after, heq⟩, later, rfl⟩
    rw [List.append_assoc, List.append_assoc, List.append_cancel_left_eq,
      ← List.append_assoc] at heq
    exact ⟨later, rfl, after, heq⟩
  · rintro ⟨later, rfl, after, rfl⟩
    exact ⟨⟨after, by simp⟩, List.prefix_append ..⟩

/-- Cutting what is left of a text finds the first place behind the pattern that was found. -/
theorem finds_cut?_again (h : cut? pattern cs = some (before, after)) :
    Finds (fun later => PatternBehind pattern cs later ∧ before ++ pattern <+: later)
      (((cut? pattern after).map Prod.fst).map (before ++ pattern ++ ·)) := by
  rw [eq_append_of_cut? h]
  exact (finds_cut? pattern after).append _ fun _ => patternBehind_append_iff

end Search

/-! ### Bytes before a value -/

/-- A value between double quotes. -/
def quoted (value : String) : String := "\"" ++ value ++ "\""

/-- The bytes of a source behind this many are those of a value between double quotes. -/
def QuotedAt (source value : String) (start : Nat) : Prop :=
  source.toByteArray.extract start (start + (quoted value).utf8ByteSize) =
    (quoted value).toByteArray

/-- A value is shown where it stands between double quotes for the second time, not overlapping the
first time, or for the first time if there is no second. -/
inductive ShownAt (source value : String) : Nat → Prop where
  | again {first second : Nat} (hfirst : IsLeast {i | QuotedAt source value i} first)
      (hsecond : IsLeast {i | QuotedAt source value i ∧ first + (quoted value).utf8ByteSize ≤ i}
        second) : ShownAt source value second
  | once {first : Nat} (hfirst : IsLeast {i | QuotedAt source value i} first)
      (honly : ∀ i, QuotedAt source value i → i < first + (quoted value).utf8ByteSize) :
      ShownAt source value first

variable {source value : String}

/-- A quoted value stands between whole characters. -/
theorem QuotedAt.exists_append {start : Nat} (h : QuotedAt source value start) :
    ∃ before after, source = before ++ quoted value ++ after ∧ before.utf8ByteSize = start :=
  exists_append_of_extract_eq (by simp [quoted]) h

/-- The place that is shown is that of an occurrence. -/
theorem ShownAt.quotedAt {start : Nat} (h : ShownAt source value start) :
    QuotedAt source value start := by
  cases h with
  | again _ hsecond => exact hsecond.1.1
  | once hfirst _ => exact hfirst.1

/-- The bytes of a quoted value are found where its characters are. -/
theorem quotedAt_iff {start : Nat} :
    QuotedAt source value start ↔
      ∃ before, PatternBehind (quoted value).toList source.toList before ∧
        byteLength before = start := by
  constructor
  · intro h
    obtain ⟨before, after, rfl, rfl⟩ := h.exists_append
    refine ⟨before.toList, ⟨after.toList, ?_⟩, byteLength_toList before⟩
    rw [String.toList_append, String.toList_append]
  · rintro ⟨before, ⟨after, hsource⟩, rfl⟩
    have hstring : source = String.ofList before ++ quoted value ++ String.ofList after := by
      rw [← String.toList_inj, hsource]
      simp
    rw [QuotedAt, hstring, ← utf8ByteSize_ofList, String.append_assoc, extract_toByteArray_append,
      extract_toByteArray_zero]

/-- The occurrences behind a beginning of the source are those whose bytes follow its bytes. -/
theorem quotedAt_and_le_iff {front : List Char} (hfront : front <+: source.toList)
    (value : String) (start : Nat) :
    QuotedAt source value start ∧ byteLength front ≤ start ↔
      ∃ before, (PatternBehind (quoted value).toList source.toList before ∧ front <+: before) ∧
        byteLength before = start := by
  rw [quotedAt_iff]
  constructor
  · rintro ⟨⟨before, hbefore, rfl⟩, hle⟩
    exact ⟨before, ⟨hbefore, prefix_of_byteLength_le hfront hbefore.beginning hle⟩, rfl⟩
  · rintro ⟨before, ⟨hbefore, hfollows⟩, rfl⟩
    exact ⟨⟨before, hbefore, rfl⟩, byteLength_mono hfollows⟩

/-- Where the pattern is found first, and where it is found again if it is. -/
theorem shownAt_of_cut? {before after : List Char}
    (h : cut? (quoted value).toList source.toList = some (before, after)) :
    ShownAt source value (match cut? (quoted value).toList after with
      | none => byteLength before
      | some (between, _) =>
        byteLength before + byteLength (quoted value).toList + byteLength between) := by
  have hfirst := finds_cut? (quoted value).toList source.toList
  rw [h] at hfirst
  have hleast : IsLeast {i | QuotedAt source value i} (byteLength before) := by
    simp only [quotedAt_iff]
    exact hfirst.isLeast
  have hfront : before ++ (quoted value).toList <+: source.toList :=
    ⟨after, (eq_append_of_cut? h).symm⟩
  -- What the second search finds is told by its bytes in the source, as what the first one finds.
  have hlater := quotedAt_and_le_iff hfront value
  rw [byteLength_append, byteLength_toList] at hlater
  have hsecond := finds_cut?_again h
  cases hagain : cut? (quoted value).toList after with
  | none =>
    rw [hagain] at hsecond
    refine .once hleast fun i hi => Nat.lt_of_not_le fun hle => ?_
    obtain ⟨before', hbefore', -⟩ := (hlater i).mp ⟨hi, hle⟩
    exact hsecond before' hbefore'
  | some parts =>
    obtain ⟨between, rest⟩ := parts
    rw [hagain] at hsecond
    have hstart := hsecond.isLeast
    simp only [← hlater, byteLength_append] at hstart
    exact .again hleast hstart

/-- A value is found where it is to be shown, and it is not found if it stands nowhere between
double quotes. -/
theorem valueSpan_cases (source value : String) :
    (∃ start, ShownAt source value start ∧
      valueSpan source value = some ⟨start + 1, value.utf8ByteSize⟩) ∨
    ((∀ i, ¬ QuotedAt source value i) ∧ valueSpan source value = none) := by
  have hpattern : '"' :: value.toList ++ ['"'] = (quoted value).toList := by simp [quoted]
  rw [valueSpan, hpattern, byteLength_toList value]
  cases hcut : cut? (quoted value).toList source.toList with
  | none =>
    have hnone := finds_cut? (quoted value).toList source.toList
    rw [hcut] at hnone
    refine .inr ⟨fun i hi => ?_, rfl⟩
    obtain ⟨before, hbefore, -⟩ := quotedAt_iff.mp hi
    exact hnone before hbefore
  | some parts => exact .inl ⟨_, shownAt_of_cut? hcut, rfl⟩

end Declgen.Manifest
